import LegibleLog.Number.Digits
import LegibleLog.Text.Blank
import LegibleLog.Time.Timestamp

/-!
# Patterns of written times

A pattern lists what a written time consists of; reading it collects the parts and leaves the rest of the text.

* `Element.read?` — one element at the front of a text;
* `Pattern.read? p cs` — the parts of the whole text `cs` by the pattern `p`;
* `Parts.toTimestamp?` — the timestamp that the parts agree on.

Blanks are lenient: a blank in a pattern stands for any number of blanks, none included, and every number may have
blanks before it.
-/

namespace LegibleLog.Time

/-- What has been read of a time so far. -/
structure Parts where
  year : Option Int := none
  yearOfCentury : Option Nat := none
  month : Option Nat := none
  day : Option Nat := none
  weekday : Option Weekday := none
  hour : Option Nat := none
  minute : Option Nat := none
  second : Option Nat := none
  nanosecond : Option Nat := none
  offset : Option Int := none

namespace Parts

/-- The year; two digits from 70 on lie in the twentieth century, the others in the one after. -/
def fullYear? (p : Parts) : Option Int :=
  match p.year, p.yearOfCentury with
  | some y, _ => some y
  | none, some n => some (if n < 70 then 2000 + n else 1900 + n)
  | none, none => none

/-- The date, if it is complete, exists and falls on the day of the week that was read. -/
def date? (p : Parts) : Option Date := do
  let date : Date := ⟨← p.fullYear?, ← p.month, ← p.day⟩
  if date.isValid && p.weekday.all (· == date.weekday) then some date else none

/-- The time of day; seconds may be absent, and second 60 is a leap second. -/
def clock? (p : Parts) : Option Clock := do
  let hour ← p.hour
  let minute ← p.minute
  let (second, leap) := if p.second = some 60 then (59, 1000000000) else (p.second.getD 0, 0)
  let clock : Clock := ⟨hour, minute, second, leap + p.nanosecond.getD 0⟩
  if clock.isValid then some clock else none

/-- The timestamp that the parts give, the offset included. -/
def toTimestamp? (p : Parts) : Option Timestamp := do
  Timestamp.ofLocal? (← p.date?) (← p.clock?) (← p.offset)

end Parts

/-- Between `least` and `most` digits at the front of a text. -/
def readDigits? (least most : Nat) (cs : List Char) : Option (Nat × List Char) :=
  let ds := (cs.take most).takeWhile Char.isDigit
  if ds.length < least then none else some (natOfDigits ds, cs.drop ds.length)

/-- All the digits at the front of a text, at least `least` of them. What they write is below `2 ^ 63`. -/
def readRun? (least : Nat) (cs : List Char) : Option (Nat × List Char) :=
  let ds := cs.takeWhile Char.isDigit
  if ds.length < least then none
  else (natBelow? 0x8000_0000_0000_0000 ds).map (·, cs.dropWhile Char.isDigit)

/-- The character `c` at the front of a text. -/
def readChar? (c : Char) : List Char → Option (List Char)
  | [] => none
  | d :: r => if d == c then some r else none

/-- The fraction of a second after its point, in nanoseconds; digits after the ninth do not count. -/
def readFraction? (cs : List Char) : Option (Nat × List Char) :=
  let ds := cs.takeWhile Char.isDigit
  if ds.isEmpty then none
  else
    let counted := ds.take 9
    let filled := counted ++ List.replicate (9 - counted.length) '0'
    some (natOfDigits filled, cs.dropWhile Char.isDigit)

/-- The first of the names whose first three letters are at the front of a text, in either case, by its place. -/
def readName? (names : List String) (cs : List Char) : Option (Nat × List Char) :=
  let three := Text.asciiLower (cs.take 3)
  (names.findIdx? fun name => Text.asciiLower (name.toList.take 3) == three).map (·, cs.drop 3)

/-- The sign of an offset: plus, hyphen, or where allowed the mathematical minus. True stands for west. -/
def readSign? (minusSign : Bool) : List Char → Option (Bool × List Char)
  | '+' :: r => some (false, r)
  | '-' :: r => some (true, r)
  | '\u2212' :: r => if minusSign then some (true, r) else none
  | _ => none

/-- An offset: a sign, two digits of hours, what `between` skips, two digits of minutes below 60. -/
def readOffset? (between : List Char → Option (List Char)) (minusSign : Bool) (cs : List Char) :
    Option (Int × List Char) := do
  let (west, cs) ← readSign? minusSign cs
  let (hours, cs) ← readDigits? 2 2 cs
  let (minutes, cs) ← readDigits? 2 2 (← between cs)
  if minutes < 60 then
    let seconds : Int := (hours * 3600 + minutes * 60 : Nat)
    some (if west then -seconds else seconds, cs)
  else none

/-- The element of a pattern. -/
inductive Element where
  | literal (c : Char)
  | blank
  | year
  | yearOfCentury
  | month
  | day
  | hour
  | minute
  | second
  | monthName
  | weekdayName
  | fraction
  | offset
deriving Repr, DecidableEq

namespace Element

/-- A number of at most `most` digits, after any blanks. -/
def readNumber? (most : Nat) (cs : List Char) : Option (Nat × List Char) := readDigits? 1 most (Text.trimStart cs)

/-- A year, after any blanks: four digits at most, or a sign and any number of digits. -/
def readYear? (cs : List Char) : Option (Int × List Char) :=
  match Text.trimStart cs with
  | '-' :: r => (readRun? 1 r).map fun (n, r) => (-(n : Int), r)
  | '+' :: r => (readRun? 1 r).map fun (n, r) => ((n : Int), r)
  | r => (readDigits? 1 4 r).map fun (n, r) => ((n : Int), r)

/-- Reads one element off the front of a text and adds it to the parts. -/
def read? (e : Element) (p : Parts) (cs : List Char) : Option (Parts × List Char) :=
  match e with
  | literal c => (readChar? c cs).map (p, ·)
  | blank => some (p, Text.trimStart cs)
  | year => (readYear? cs).map fun (n, r) => ({ p with year := some n }, r)
  | yearOfCentury => (readNumber? 2 cs).map fun (n, r) => ({ p with yearOfCentury := some n }, r)
  | month => (readNumber? 2 cs).map fun (n, r) => ({ p with month := some n }, r)
  | day => (readNumber? 2 cs).map fun (n, r) => ({ p with day := some n }, r)
  | hour => (readNumber? 2 cs).map fun (n, r) => ({ p with hour := some n }, r)
  | minute => (readNumber? 2 cs).map fun (n, r) => ({ p with minute := some n }, r)
  | second => (readNumber? 2 cs).map fun (n, r) => ({ p with second := some n }, r)
  | monthName => (readName? monthNames cs).map fun (i, r) => ({ p with month := some (i + 1) }, r)
  | weekdayName =>
    (readName? (Weekday.all.map Weekday.name) cs).map fun (i, r) => ({ p with weekday := Weekday.all[i]? }, r)
  | fraction =>
    match cs with
    | '.' :: r => (readFraction? r).map fun (n, r) => ({ p with nanosecond := some n }, r)
    | _ => some (p, cs)
  | offset =>
    let between := fun r => some (r.dropWhile fun c => c == ':' || Text.isBlank c)
    (readOffset? between true (Text.trimStart cs)).map fun (n, r) => ({ p with offset := some n }, r)

end Element

/-- What a written time consists of, in order. -/
abbrev Pattern := List Element

namespace Pattern

/-- The parts read off the front of a text, and the rest of it. -/
def readFront? : Pattern → Parts → List Char → Option (Parts × List Char)
  | [], p, cs => some (p, cs)
  | e :: es, p, cs =>
    match e.read? p cs with
    | some (p, cs) => readFront? es p cs
    | none => none

/-- The parts of a whole text. -/
def read? (pattern : Pattern) (cs : List Char) : Option Parts :=
  match readFront? pattern {} cs with
  | some (p, []) => some p
  | _ => none

/-- The year, month and day of a date with `separator` between them. -/
def ymd (separator : Char) : Pattern := [.year, .literal separator, .month, .literal separator, .day]

/-- Hours, minutes and seconds with colons between them. -/
def hms : Pattern := [.hour, .literal ':', .minute, .literal ':', .second]

/-- The timestamp of a text whose pattern has an offset. -/
def zoned? (pattern : Pattern) (cs : List Char) : Option Timestamp := (pattern.read? cs).bind Parts.toTimestamp?

/-- The timestamp of a text whose pattern has no offset, its clock being in UTC. -/
def naive? (pattern : Pattern) (cs : List Char) : Option Timestamp :=
  (pattern.read? cs).bind fun p => { p with offset := some 0 }.toTimestamp?

end Pattern

end LegibleLog.Time
