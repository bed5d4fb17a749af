/-!
# Layouts

A layout says how a time is to be written: characters that stand for themselves, and directives that begin with a
percent sign.

* `Item` — a character or a directive;
* `Layout.parse? cs` — the items of a layout, if every directive in it is known.
-/

namespace LegibleLog.Time

/-- What fills a number up to its width. -/
inductive Pad where
  | zero
  | space
  | none
deriving Repr, DecidableEq

/-- The numbers that a directive can ask for. -/
inductive NumberField where
  | year
  | century
  | yearOfCentury
  | isoYear
  | isoYearOfCentury
  | quarter
  | month
  | day
  | weekFromSunday
  | weekFromMonday
  | isoWeek
  | weekdayFromSunday
  | weekdayFromMonday
  | dayOfYear
  | hour
  | hour12
  | minute
  | second
  | nanosecond
  | unixSeconds
deriving Repr, DecidableEq

/-- The forms of an offset: `+hhmm`, `+hh:mm`, `+hh:mm:ss` and `+hh`. -/
inductive OffsetForm where
  | plain
  | colon
  | colonSeconds
  | hours
deriving Repr, DecidableEq

/-- A part of a layout. -/
inductive Item where
  | literal (c : Char)
  | number (field : NumberField) (pad : Pad)
  | monthName (long : Bool)
  | weekdayName (long : Bool)
  | halfDay (capital : Bool)
  | fraction
  | fixedFraction (point : Bool) (digits : Nat)
  | zoneName
  | offset (form : OffsetForm)
  | timestamp
  /-- An offset in any form, which makes sense for reading only. -/
  | anyOffset
deriving Repr, DecidableEq

namespace Layout

/-- The number that a directive letter asks for, with its usual padding. -/
def numberField? : Char → Option (NumberField × Pad)
  | 'C' => some (.century, .zero)
  | 'G' => some (.isoYear, .zero)
  | 'H' => some (.hour, .zero)
  | 'I' => some (.hour12, .zero)
  | 'M' => some (.minute, .zero)
  | 'S' => some (.second, .zero)
  | 'U' => some (.weekFromSunday, .zero)
  | 'V' => some (.isoWeek, .zero)
  | 'W' => some (.weekFromMonday, .zero)
  | 'Y' => some (.year, .zero)
  | 'd' => some (.day, .zero)
  | 'e' => some (.day, .space)
  | 'f' => some (.nanosecond, .zero)
  | 'g' => some (.isoYearOfCentury, .zero)
  | 'j' => some (.dayOfYear, .zero)
  | 'k' => some (.hour, .space)
  | 'l' => some (.hour12, .space)
  | 'm' => some (.month, .zero)
  | 'q' => some (.quarter, .none)
  | 's' => some (.unixSeconds, .none)
  | 'u' => some (.weekdayFromMonday, .none)
  | 'w' => some (.weekdayFromSunday, .none)
  | 'y' => some (.yearOfCentury, .zero)
  | _ => none

/-- Two-digit numbers with a separator between them. -/
def separated (separator : Char) (fields : List NumberField) : List Item :=
  (fields.map fun f => Item.number f .zero).intersperse (.literal separator)

/-- The clock in hours, minutes and seconds. -/
def hms : List Item := separated ':' [.hour, .minute, .second]

/-- The date with the month first. -/
def monthDayYear : List Item := separated '/' [.month, .day, .yearOfCentury]

/-- What a directive letter other than a number's stands for. -/
def otherItems? : Char → Option (List Item)
  | 'A' => some [.weekdayName true]
  | 'a' => some [.weekdayName false]
  | 'B' => some [.monthName true]
  | 'b' => some [.monthName false]
  | 'h' => some [.monthName false]
  | 'P' => some [.halfDay false]
  | 'p' => some [.halfDay true]
  | 'Z' => some [.zoneName]
  | 'z' => some [.offset .plain]
  | '+' => some [.timestamp]
  | 'n' => some [.literal '\n']
  | 't' => some [.literal '\t']
  | '%' => some [.literal '%']
  | 'D' => some monthDayYear
  | 'x' => some monthDayYear
  | 'F' => some (separated '-' [.year, .month, .day])
  | 'R' => some (separated ':' [.hour, .minute])
  | 'T' => some hms
  | 'X' => some hms
  | 'r' => some (separated ':' [.hour12, .minute, .second] ++ [.literal ' ', .halfDay true])
  | 'v' => some [.number .day .space, .literal '-', .monthName false, .literal '-', .number .year .zero]
  | 'c' =>
    some ([.weekdayName false, .literal ' ', .monthName false, .literal ' ', .number .day .space, .literal ' '] ++
      hms ++ [.literal ' ', .number .year .zero])
  | _ => none

/-- The padding that a modifier before the letter of a number asks for. -/
def padding? : Char → Option Pad
  | '-' => some .none
  | '0' => some .zero
  | '_' => some .space
  | _ => none

/-- The items of a directive that is a letter, with a modifier before it where the letter is a number's. -/
def lettered? : List Char → Option (List Item × List Char)
  | [] => none
  | c :: r =>
    match padding? c, r with
    | some pad, d :: r => (numberField? d).map fun (field, _) => ([.number field pad], r)
    | some _, [] => none
    | none, r =>
      match numberField? c with
      | some (field, pad) => some ([.number field pad], r)
      | none => (otherItems? c).map (·, r)

/-- The items of the directive at the front of a text, its percent sign taken off, and the rest of the text. -/
def directive? : List Char → Option (List Item × List Char)
  | '#' :: 'z' :: r => some ([.anyOffset], r)
  | '.' :: 'f' :: r => some ([.fraction], r)
  | '.' :: '3' :: 'f' :: r => some ([.fixedFraction true 3], r)
  | '.' :: '6' :: 'f' :: r => some ([.fixedFraction true 6], r)
  | '.' :: '9' :: 'f' :: r => some ([.fixedFraction true 9], r)
  | '3' :: 'f' :: r => some ([.fixedFraction false 3], r)
  | '6' :: 'f' :: r => some ([.fixedFraction false 6], r)
  | '9' :: 'f' :: r => some ([.fixedFraction false 9], r)
  | ':' :: 'z' :: r => some ([.offset .colon], r)
  | ':' :: ':' :: 'z' :: r => some ([.offset .colonSeconds], r)
  | ':' :: ':' :: ':' :: 'z' :: r => some ([.offset .hours], r)
  | cs => lettered? cs

/-- The directives that are more than a letter. -/
def markedDirectives : List (List Char × List Item) :=
  [(['#', 'z'], [.anyOffset]), (['.', 'f'], [.fraction]), (['.', '3', 'f'], [.fixedFraction true 3]),
    (['.', '6', 'f'], [.fixedFraction true 6]), (['.', '9', 'f'], [.fixedFraction true 9]),
    (['3', 'f'], [.fixedFraction false 3]), (['6', 'f'], [.fixedFraction false 6]),
    (['9', 'f'], [.fixedFraction false 9]), ([':', 'z'], [.offset .colon]), ([':', ':', 'z'], [.offset .colonSeconds]),
    ([':', ':', ':', 'z'], [.offset .hours])]

/-- A directive is one of those, or a letter. -/
theorem directive?_cases {cs rest : List Char} {items : List Item} (h : directive? cs = some (items, rest)) :
    (∃ name, (name, items) ∈ markedDirectives ∧ cs = name ++ rest) ∨ lettered? cs = some (items, rest) := by
  unfold directive? at h
  split at h
  all_goals
    first
    | exact .inr h
    | cases h
      exact .inl (by simp [markedDirectives])

theorem length_lt_of_lettered? {cs rest : List Char} {items : List Item}
    (h : lettered? cs = some (items, rest)) : rest.length < cs.length := by
  unfold lettered? at h
  split at h
  · simp at h
  · split at h
    · simp only [Option.map_eq_some_iff, Prod.mk.injEq] at h
      obtain ⟨_, _, _, rfl⟩ := h
      simp only [List.length_cons]
      omega
    · simp at h
    · split at h
      · simp only [Option.some.injEq, Prod.mk.injEq] at h
        obtain ⟨-, rfl⟩ := h
        simp
      · simp only [Option.map_eq_some_iff, Prod.mk.injEq] at h
        obtain ⟨_, _, _, rfl⟩ := h
        simp

theorem length_lt_of_directive? {cs rest : List Char} {items : List Item}
    (h : directive? cs = some (items, rest)) : rest.length < cs.length := by
  obtain ⟨name, hname, rfl⟩ | hlettered := directive?_cases h
  · have hpos : 0 < name.length := by
      have hnames : ∀ p ∈ markedDirectives, 0 < p.1.length := by simp [markedDirectives]
      exact hnames _ hname
    rw [List.length_append]
    omega
  · exact length_lt_of_lettered? hlettered

/-- The items of a layout. -/
def parse? : List Char → Option (List Item)
  | [] => some []
  | '%' :: r =>
    match _h : directive? r with
    | some (items, rest) => (parse? rest).map (items ++ ·)
    | none => none
  | c :: r => (parse? r).map (.literal c :: ·)
termination_by cs => cs.length
decreasing_by
  · have hlt := length_lt_of_directive? _h
    simp only [List.length_cons]
    omega
  · simp

end Layout

end LegibleLog.Time
