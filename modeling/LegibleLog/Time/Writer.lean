import LegibleLog.Time.Layout
import LegibleLog.Time.Timestamp

/-!
# Times written by a layout

* `Item.write? item t` — what an item of a layout puts down for the timestamp `t`;
* `Timestamp.format? layout t` — the timestamp written by a layout, if the layout is one and can be written.
-/

namespace LegibleLog.Time

/-- A number in the given width, a sign included; with `signed`, also a number that is not negative has one. -/
def numberText (pad : Pad) (width : Nat) (signed : Bool) (n : Int) : String :=
  let sign := if n < 0 then "-" else if signed then "+" else ""
  let body := toString n.natAbs
  match pad with
  | .zero => sign ++ Text.padLeft '0' (width - sign.length) body
  | .space => Text.padLeft ' ' width (sign ++ body)
  | .none => sign ++ body

/-- A number below 256 in two characters. From 100 on the first one goes on past the digit nine. -/
def twoDigits (pad : Pad) (n : Nat) : String :=
  let tens :=
    if n / 10 = 0 then
      match pad with
      | .zero => "0"
      | .space => " "
      | .none => ""
    else (Char.ofNat ('0'.toNat + n / 10)).toString
  tens ++ (Char.ofNat ('0'.toNat + n % 10)).toString

/-- A year in at least four digits, with a sign outside 0 to 9999. -/
def yearNumber (pad : Pad) (year : Int) : String :=
  if 0 ≤ year ∧ year < 10000 then numberText pad 4 false year else numberText pad 5 true year

/-- The hour on a dial of twelve. -/
def hourOnDial (hour : Nat) : Nat := if hour % 12 = 0 then 12 else hour % 12

/-- The text of a number of a timestamp. -/
def NumberField.text (f : NumberField) (pad : Pad) (t : Timestamp) : String :=
  let d := t.date
  let c := t.clock
  match f with
  | year => yearNumber pad d.year
  | century => twoDigits pad ((d.year / 100) % 256).toNat
  | yearOfCentury => twoDigits pad (d.year % 100).toNat
  | isoYear => yearNumber pad d.isoWeek.1
  | isoYearOfCentury => twoDigits pad (d.isoWeek.1 % 100).toNat
  | quarter => toString d.quarter
  | month => twoDigits pad d.month
  | day => twoDigits pad d.day
  | weekFromSunday => twoDigits pad (d.week .sunday)
  | weekFromMonday => twoDigits pad (d.week .monday)
  | isoWeek => twoDigits pad d.isoWeek.2
  | weekdayFromSunday => toString (d.weekday.since .sunday)
  | weekdayFromMonday => toString (d.weekday.index + 1)
  | dayOfYear => numberText pad 3 false d.dayOfYear
  | hour => twoDigits pad c.hour
  | hour12 => twoDigits pad (hourOnDial c.hour)
  | minute => twoDigits pad c.minute
  | second => twoDigits pad c.shownSecond
  | nanosecond => numberText pad 9 false c.shownNanosecond
  | unixSeconds => numberText pad 9 false t.seconds

/-- The text of an offset. -/
def OffsetForm.text (form : OffsetForm) (offset : Int) : String :=
  match form with
  | plain => Timestamp.offsetText "" offset
  | colon => Timestamp.offsetText ":" offset
  | colonSeconds => Timestamp.offsetText ":" offset ++ ":" ++ Timestamp.padded 2 (offset.natAbs % 60)
  | hours => (if offset < 0 then "-" else "+") ++ Timestamp.padded 2 (offset.natAbs / 3600)

/-- A name in full, or its first three letters. -/
def nameText (long : Bool) (name : String) : String := if long then name else String.ofList (name.toList.take 3)

/-- What an item puts down for a timestamp. -/
def Item.write? (item : Item) (t : Timestamp) : Option String :=
  match item with
  | literal c => some c.toString
  | number f pad => some (f.text pad t)
  | monthName long => some (nameText long (monthNames[t.date.month - 1]?.getD ""))
  | weekdayName long => some (nameText long t.date.weekday.name)
  | halfDay capital =>
    let afternoon := 12 ≤ t.clock.hour
    some (if capital then (if afternoon then "PM" else "AM") else if afternoon then "pm" else "am")
  | fraction => some (Timestamp.fractionText t.clock.shownNanosecond)
  | fixedFraction point digits =>
    let nine := (Timestamp.padded 9 t.clock.shownNanosecond).toList
    some ((if point then "." else "") ++ String.ofList (nine.take digits))
  | zoneName => some (OffsetForm.colon.text t.offset)
  | offset form => some (form.text t.offset)
  | timestamp => some (t.rfc3339 false)
  | anyOffset => none

/-- What the items put down one after the other. -/
def Layout.write? (items : List Item) (t : Timestamp) : Option String :=
  (items.mapM fun (item : Item) => item.write? t).map String.join

/-- The timestamp written by a layout. -/
def Timestamp.format? (layout : String) (t : Timestamp) : Option String :=
  (Layout.parse? layout.toList).bind fun items => Layout.write? items t

end LegibleLog.Time
