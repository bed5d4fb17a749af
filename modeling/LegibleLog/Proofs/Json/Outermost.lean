import LegibleLog.Proofs.Json.Balance

/-!
# The first word tells what kind of value a text is

* `Builder.outermost?` — the container that was opened first; `Builder.outermost?_step?` and `Builder.outermost?_run?`
  say that it stays the same until the value is complete;
* `Value.container?_of_ofTokens?` — so the first word decides whether a value is an array, an object or a scalar;
* `Value.exists_object_iff` — the text of a value is that of an object exactly when a brace opens it.
-/

namespace LegibleLog.Json

/-- The values that have parts. -/
inductive Container where
  | array
  | object

/-- What kind of container a value is. -/
def Value.container? : Value → Option Container
  | .scalar _ => none
  | .array _ => some .array
  | .object _ => some .object

/-- What kind of container a word opens. -/
def Token.container? : Token → Option Container
  | .openBracket => some .array
  | .openBrace => some .object
  | _ => none

/-- The container that a frame belongs to. -/
def Frame.container : Frame → Container
  | .item _ => .array
  | .member _ _ => .object

/-- The container that a mode is inside of. -/
def Mode.container? : Mode → Option Container
  | .value => none
  | .arrayStart => some .array
  | .objectStart => some .object
  | .nextKey _ => some .object
  | .key _ _ => some .object
  | .itemEnd _ => some .array
  | .memberEnd _ => some .object
  | .finished _ => none

namespace Builder

/-- The outermost container of frames around an inner one. -/
def outermostOf (inner : Option Container) : List Frame → Option Container
  | [] => inner
  | frame :: frames => outermostOf (some frame.container) frames

/-- The container that was opened first: a complete value itself, or what is open around all else. -/
def outermost? (b : Builder) : Option Container :=
  match b.mode with
  | .finished v => v.container?
  | mode => outermostOf mode.container? b.frames

variable {b b' : Builder} {c : Container} {frames : List Frame} {t : Token} {ts : List Token}

/-! ### One word -/

@[simp]
theorem outermost?_deliver (v : Value) (frames : List Frame) :
    (deliver v frames).outermost? = outermostOf v.container? frames := by
  cases frames with
  | nil => rfl
  | cons frame frames => cases frame <;> rfl

/-- The first word of a value is inside the containers that wait for the value. -/
theorem outermost?_begin? (h : begin? frames t = some b) : b.outermost? = outermostOf t.container? frames := by
  unfold begin? at h
  split at h
  · cases h
    exact outermost?_deliver _ _
  · rw [openIn_eq_some h]
    rfl
  · rw [openIn_eq_some h]
    rfl
  · cases h

/-- **One word** leaves the outermost container as it is. -/
theorem outermost?_step? (h : b.step? t = some b') (hc : b.outermost? = some c) : b'.outermost? = some c := by
  cases step?_eq_some_iff.mp h with
  | @begins frames _ _ hbegin =>
    rw [outermost?_begin? hbegin]
    -- some container is open, so that it does not matter which value begins in it
    cases frames with
    | nil => cases hc
    | cons frame frames => exact hc
  | firstItem hbegin =>
    rw [outermost?_begin? hbegin]
    exact hc
  | noItems | noMembers | endItems | endMembers =>
    rw [outermost?_deliver]
    exact hc
  | firstKey | nextKey | colon | moreItems | moreMembers => exact hc

/-! ### A row of words -/

/-- **A row of words** leaves it as it is. -/
theorem outermost?_run? (h : b.run? ts = some b') (hc : b.outermost? = some c) : b'.outermost? = some c := by
  induction ts generalizing b with
  | nil =>
    obtain rfl := Option.some.inj h
    exact hc
  | cons t ts ih =>
    obtain ⟨next, hnext, hrest⟩ := run?_cons_eq_some_iff.mp h
    exact ih hrest (outermost?_step? hnext hc)

end Builder

/-! ### Values -/

namespace Value

variable {v : Value} {t : Token} {ts : List Token} {cs : List Char}

/-- **The first word decides** what kind of container a value is, if it is one. -/
theorem container?_of_ofTokens? (h : ofTokens? (t :: ts) = some v) : v.container? = t.container? := by
  obtain ⟨frames, hrun⟩ := ofTokens?_eq_some_iff.mp h
  obtain ⟨next, hnext, hrest⟩ := Builder.run?_cons_eq_some_iff.mp hrun
  have hfirst : next.outermost? = t.container? := Builder.outermost?_begin? hnext
  cases hc : t.container? with
  | some c => exact Builder.outermost?_run? hrest (hfirst.trans hc)
  | none =>
    -- a word that opens no container is the whole value
    change Builder.begin? [] t = some next at hnext
    unfold Builder.begin? at hnext
    split at hnext
    · next s =>
      cases hnext
      cases ts with
      | nil =>
        cases hrest
        rfl
      | cons t ts =>
        obtain ⟨_, hstep, -⟩ := Builder.run?_cons_eq_some_iff.mp hrest
        cases hstep
    · cases hc
    · cases hc
    · cases hnext

/-- A brace is the only word that begins with one. -/
theorem openBrace_iff {c : Char} {r rest : List Char} (h : Token.read? (c :: r) = some (t, rest)) :
    t = .openBrace ↔ c = '\x7b' := by
  constructor
  · rintro rfl
    obtain ⟨w, hw, hcr⟩ | ⟨_, _, -, -, hstring⟩ | ⟨_, -, hnumber⟩ := Token.read?_cases h
    · have hwords : ∀ p ∈ fixedWords, p.2 = .openBrace → p.1 = ['\x7b'] := by simp [fixedWords]
      obtain rfl : w = ['\x7b'] := hwords _ hw rfl
      exact (List.cons.inj hcr).1
    · cases hstring
    · cases hnumber
  · rintro rfl
    cases h
    rfl

/-- **The text of an object** is the text of a value that a brace opens. -/
theorem exists_object_iff (h : ofText? cs = some v) :
    (∃ members, v = .object members) ↔ ∃ r, cs.dropWhile isBlank = '\x7b' :: r := by
  obtain ⟨ts, hts, hvalue⟩ := Option.bind_eq_some_iff.mp h
  have hobject : (∃ members, v = .object members) ↔ v.container? = some .object := by
    cases v <;> simp [container?]
  cases hdrop : cs.dropWhile isBlank with
  | nil =>
    rw [tokens?_eq_nil hdrop] at hts
    cases hts
    cases hvalue
  | cons c r =>
    rw [tokens?_of_cons hdrop] at hts
    obtain ⟨⟨t, rest⟩, ht, hmap⟩ := Option.bind_eq_some_iff.mp hts
    obtain ⟨more, -, rfl⟩ := Option.map_eq_some_iff.mp hmap
    rw [hobject, container?_of_ofTokens? hvalue]
    have hbrace := openBrace_iff ht
    constructor
    · intro hc
      refine ⟨r, ?_⟩
      cases t with
      | openBrace => rw [hbrace.mp rfl]
      | openBracket => cases hc
      | closeBracket => cases hc
      | closeBrace => cases hc
      | comma => cases hc
      | colon => cases hc
      | scalar s => cases hc
    · rintro ⟨r', hr'⟩
      rw [hbrace.mpr (List.cons.inj hr').1]
      rfl

end Value

end LegibleLog.Json
