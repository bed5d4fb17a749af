import LegibleLog.Json.Text

/-!
# Values from words

A `Builder` takes the words of a JSON text one by one.  It holds the containers that are still open and what may come
next.

* `Builder.step? b t` — the builder after the word `t`, if the word may come;
* `Value.ofTokens?`, `Value.ofText?` — the value that words or a text make up.
-/

namespace LegibleLog.Json

/-- A container that waits for the value of an item or member, with the items or members before it, the last one
first. -/
inductive Frame where
  | item (before : List Value)
  | member (before : List (String × Value)) (key : String)

/-- What has just been read, and so what may come next. -/
inductive Mode where
  /-- A value is due. -/
  | value
  /-- After an opening bracket. -/
  | arrayStart
  /-- After an opening brace. -/
  | objectStart
  /-- After a comma between members. -/
  | nextKey (before : List (String × Value))
  /-- After the key of a member. -/
  | key (before : List (String × Value)) (key : String)
  /-- After an item. -/
  | itemEnd (items : List Value)
  /-- After a member. -/
  | memberEnd (members : List (String × Value))
  /-- After the whole value. -/
  | finished (v : Value)

/-- A value under construction: what may come next, and the open containers around it, the innermost first. -/
structure Builder where
  mode : Mode
  frames : List Frame

namespace Builder

/-- How many containers may be open at a time. -/
def maxDepth : Nat := 127

/-- Nothing read yet. -/
def start : Builder := ⟨.value, []⟩

/-- Hands a complete value to the container that waits for it. -/
def deliver (v : Value) : List Frame → Builder
  | [] => ⟨.finished v, []⟩
  | .item before :: frames => ⟨.itemEnd (v :: before), frames⟩
  | .member before key :: frames => ⟨.memberEnd ((key, v) :: before), frames⟩

/-- Opens a container unless too many are open. -/
def openIn (mode : Mode) (frames : List Frame) : Option Builder :=
  if frames.length < maxDepth then some ⟨mode, frames⟩ else none

/-- The first word of a value. -/
def begin? (frames : List Frame) : Token → Option Builder
  | .scalar s => some (deliver (.scalar s) frames)
  | .openBracket => openIn .arrayStart frames
  | .openBrace => openIn .objectStart frames
  | _ => none

/-- The builder after one more word. -/
def step? (b : Builder) (t : Token) : Option Builder :=
  match b.mode, t with
  | .value, t => begin? b.frames t
  | .arrayStart, .closeBracket => some (deliver (.array []) b.frames)
  | .arrayStart, t => begin? (.item [] :: b.frames) t
  | .objectStart, .closeBrace => some (deliver (.object []) b.frames)
  | .objectStart, .scalar (.string k) => some ⟨.key [] k, b.frames⟩
  | .nextKey before, .scalar (.string k) => some ⟨.key before k, b.frames⟩
  | .key before k, .colon => some ⟨.value, .member before k :: b.frames⟩
  | .itemEnd items, .comma => some ⟨.value, .item items :: b.frames⟩
  | .itemEnd items, .closeBracket => some (deliver (.array items.reverse) b.frames)
  | .memberEnd members, .comma => some ⟨.nextKey members, b.frames⟩
  | .memberEnd members, .closeBrace => some (deliver (.object (byKey members.reverse)) b.frames)
  | _, _ => none

/-- What one more word does, one case for each place where a word may come. -/
inductive Steps : Builder → Token → Builder → Prop where
  | begins {frames : List Frame} {t : Token} {b : Builder} (h : begin? frames t = some b) : Steps ⟨.value, frames⟩ t b
  | noItems {frames : List Frame} : Steps ⟨.arrayStart, frames⟩ .closeBracket (deliver (.array []) frames)
  | firstItem {frames : List Frame} {t : Token} {b : Builder} (h : begin? (.item [] :: frames) t = some b) :
    Steps ⟨.arrayStart, frames⟩ t b
  | noMembers {frames : List Frame} : Steps ⟨.objectStart, frames⟩ .closeBrace (deliver (.object []) frames)
  | firstKey {frames : List Frame} {key : String} :
    Steps ⟨.objectStart, frames⟩ (.scalar (.string key)) ⟨.key [] key, frames⟩
  | nextKey {frames : List Frame} {before : List (String × Value)} {key : String} :
    Steps ⟨.nextKey before, frames⟩ (.scalar (.string key)) ⟨.key before key, frames⟩
  | colon {frames : List Frame} {before : List (String × Value)} {key : String} :
    Steps ⟨.key before key, frames⟩ .colon ⟨.value, .member before key :: frames⟩
  | moreItems {frames : List Frame} {items : List Value} :
    Steps ⟨.itemEnd items, frames⟩ .comma ⟨.value, .item items :: frames⟩
  | endItems {frames : List Frame} {items : List Value} :
    Steps ⟨.itemEnd items, frames⟩ .closeBracket (deliver (.array items.reverse) frames)
  | moreMembers {frames : List Frame} {members : List (String × Value)} :
    Steps ⟨.memberEnd members, frames⟩ .comma ⟨.nextKey members, frames⟩
  | endMembers {frames : List Frame} {members : List (String × Value)} :
    Steps ⟨.memberEnd members, frames⟩ .closeBrace (deliver (.object (byKey members.reverse)) frames)

theorem step?_eq_some_iff {b b' : Builder} {t : Token} : b.step? t = some b' ↔ Steps b t b' := by
  constructor
  · intro h
    obtain ⟨mode, frames⟩ := b
    cases mode with
    | value => exact .begins h
    | arrayStart =>
      cases t with
      | closeBracket =>
        cases h
        exact .noItems
      | _ => exact .firstItem h
    | objectStart =>
      cases t with
      | closeBrace =>
        cases h
        exact .noMembers
      | scalar s =>
        cases s <;> cases h
        exact .firstKey
      | _ => cases h
    | nextKey before =>
      cases t with
      | scalar s =>
        cases s <;> cases h
        exact .nextKey
      | _ => cases h
    | key before key =>
      cases t <;> cases h
      exact .colon
    | itemEnd items =>
      cases t with
      | comma =>
        cases h
        exact .moreItems
      | closeBracket =>
        cases h
        exact .endItems
      | _ => cases h
    | memberEnd members =>
      cases t with
      | comma =>
        cases h
        exact .moreMembers
      | closeBrace =>
        cases h
        exact .endMembers
      | _ => cases h
    | finished v => cases h
  · intro h
    cases h with
    | begins h => exact h
    | firstItem h =>
      -- no value begins with the bracket that closes the list
      cases t with
      | closeBracket => cases h
      | _ => exact h
    | _ => rfl

/-- The builder after further words. -/
def run? (b : Builder) : List Token → Option Builder
  | [] => some b
  | t :: ts =>
    match b.step? t with
    | some b => run? b ts
    | none => none

end Builder

/-- The value that words make up. -/
def Value.ofTokens? (ts : List Token) : Option Value :=
  match Builder.start.run? ts with
  | some ⟨.finished v, _⟩ => some v
  | _ => none

/-- The value that a text stands for. -/
def Value.ofText? (cs : List Char) : Option Value := (tokens? cs).bind Value.ofTokens?

end LegibleLog.Json
