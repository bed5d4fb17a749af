import LegibleLog.Time.Pattern

/-!
# Times of internet messages

* `rfc3339? cs` — the timestamp that `cs` writes in the form of RFC 3339, where a space may stand for the `T`;
* `rfc2822? cs` — the timestamp that `cs` writes as the date of a mail message, comments at the end included.
-/

namespace LegibleLog.Time

/-! ### RFC 3339 -/

/-- The character between date and time. -/
def readDateEnd? : List Char → Option (List Char)
  | 'T' :: r => some r
  | 't' :: r => some r
  | ' ' :: r => some r
  | _ => none

/-- The zone at the end of a timestamp: `Z`, or an offset with a colon below 24 hours. -/
def readZone? : List Char → Option (Int × List Char)
  | 'Z' :: r => some (0, r)
  | 'z' :: r => some (0, r)
  | cs => do
    let (offset, r) ← readOffset? (readChar? ':') true cs
    if -86400 < offset ∧ offset < 86400 then some (offset, r) else none

/-- The parts of a timestamp, all numbers at their full width. -/
def readTimestamp? (cs : List Char) : Option (Parts × List Char) := do
  let (year, cs) ← readDigits? 4 4 cs
  let (month, cs) ← readDigits? 2 2 (← readChar? '-' cs)
  let (day, cs) ← readDigits? 2 2 (← readChar? '-' cs)
  let (hour, cs) ← readDigits? 2 2 (← readDateEnd? cs)
  let (minute, cs) ← readDigits? 2 2 (← readChar? ':' cs)
  let (second, cs) ← readDigits? 2 2 (← readChar? ':' cs)
  let (parts, cs) ← Element.fraction.read?
    { year := some (year : Int), month := some month, day := some day, hour := some hour, minute := some minute,
      second := some second } cs
  let (offset, cs) ← readZone? cs
  return ({ parts with offset := some offset }, cs)

/-- The timestamp of a text in the form of RFC 3339. -/
def rfc3339? (cs : List Char) : Option Timestamp :=
  match readTimestamp? cs with
  | some (parts, []) => parts.toTimestamp?
  | _ => none

/-! ### RFC 2822 -/

/-- At least one blank, and all that follow it. -/
def readBlanks? : List Char → Option (List Char)
  | [] => none
  | c :: r => if Text.isBlank c then some (Text.trimStart r) else none

/-- A day of the week with its comma, if there is one. -/
def readWeekday? (cs : List Char) : Option (Option Weekday × List Char) :=
  match readName? (Weekday.all.map Weekday.name) cs with
  | some (i, ',' :: r) => some (Weekday.all[i]?, r)
  | some _ => none
  | none => some (none, cs)

/-- A year: two digits below 50 lie in this century, other two or three digits count from 1900. -/
def readMailYear? (cs : List Char) : Option (Nat × List Char) := do
  let (n, r) ← readRun? 2 cs
  let width := cs.length - r.length
  let year := if width = 2 ∧ n ≤ 49 then n + 2000 else if width ≤ 3 then n + 1900 else n
  return (year, r)

/-- The zones that have names, with their hours east. -/
def zoneNames : List (String × Int) :=
  [("gmt", 0), ("ut", 0), ("edt", -4), ("est", -5), ("cdt", -5), ("cst", -6), ("mdt", -6), ("mst", -7), ("pdt", -7),
    ("pst", -8)]

/-- The offset of a zone by its name; a single letter other than `j` says nothing and counts as zero. -/
def zoneOffset? (name : List Char) : Option Int :=
  let lower := Text.asciiLower name
  match zoneNames.lookup (String.ofList lower) with
  | some hours => some (hours * 3600)
  | none => if lower.length = 1 ∧ lower ≠ ['j'] then some 0 else none

/-- A zone by name, or an offset without a colon. -/
def readMailZone? (cs : List Char) : Option (Int × List Char) :=
  let name := cs.takeWhile Char.isAlpha
  if name.isEmpty then readOffset? some false cs
  else (zoneOffset? name).map (·, cs.dropWhile Char.isAlpha)

/-- The text after the comment whose `depth` parentheses are open; a backslash takes the next character with it. -/
def afterComment? : Nat → List Char → Option (List Char)
  | _, [] => none
  | depth, '\\' :: r =>
    match r with
    | [] => none
    | _ :: r => afterComment? depth r
  | depth, '(' :: r => afterComment? (depth + 1) r
  | depth, ')' :: r => if depth ≤ 1 then some r else afterComment? (depth - 1) r
  | depth, _ :: r => afterComment? depth r

theorem length_lt_of_afterComment? {depth : Nat} {cs r : List Char} (h : afterComment? depth cs = some r) :
    r.length < cs.length := by
  fun_induction afterComment? depth cs with
  | case1 => simp at h
  | case2 => simp at h
  | case3 depth c r' ih =>
    have hrest := ih h
    simp only [List.length_cons]
    omega
  | case4 depth r' ih =>
    have hrest := ih h
    simp only [List.length_cons]
    omega
  | case5 depth r' hd =>
    obtain rfl := Option.some.inj h
    simp
  | case6 depth r' hd ih =>
    have hrest := ih h
    simp only [List.length_cons]
    omega
  | case7 depth c r' _ _ _ ih =>
    have hrest := ih h
    simp only [List.length_cons]
    omega

/-- Nothing but comments, with blanks before them. -/
def onlyComments (cs : List Char) : Bool :=
  if cs.isEmpty then true
  else
    match _hc : Text.trimStart cs with
    | '(' :: r =>
      match _hr : afterComment? 1 r with
      | some rest => onlyComments rest
      | none => false
    | _ => false
termination_by cs.length
decreasing_by
  have hle : (Text.trimStart cs).length ≤ cs.length := (List.dropWhile_sublist Text.isBlank).length_le
  have hlt := length_lt_of_afterComment? _hr
  rw [_hc, List.length_cons] at hle
  omega

/-- The parts of the date of a mail message, and the text after its zone. -/
def readMailDate? (cs : List Char) : Option (Parts × List Char) := do
  let (weekday, cs) ← readWeekday? (Text.trimStart cs)
  let (day, cs) ← readDigits? 1 2 (Text.trimStart cs)
  let (month, cs) ← readName? monthNames (← readBlanks? cs)
  let (year, cs) ← readMailYear? (← readBlanks? cs)
  let (hour, cs) ← readDigits? 2 2 (← readBlanks? cs)
  let (minute, cs) ← readDigits? 2 2 (Text.trimStart (← readChar? ':' (Text.trimStart cs)))
  let (second, cs) ←
    match readChar? ':' (Text.trimStart cs) with
    | some r => (readDigits? 2 2 r).map fun (n, r) => (some n, r)
    | none => some (none, cs)
  let (offset, cs) ← readMailZone? (← readBlanks? cs)
  return ({ year := some (year : Int), month := some (month + 1), day := some day, weekday := weekday,
            hour := some hour, minute := some minute, second := second, offset := some offset }, cs)

/-- The timestamp of a text in the form of RFC 2822. -/
def rfc2822? (cs : List Char) : Option Timestamp :=
  match readMailDate? cs with
  | some (parts, rest) => if onlyComments rest then parts.toTimestamp? else none
  | none => none

end LegibleLog.Time
