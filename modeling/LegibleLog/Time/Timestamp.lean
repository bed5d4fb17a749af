import LegibleLog.Time.Calendar
import LegibleLog.Text.Hex

/-!
# Timestamps

A timestamp is an instant together with the offset of the clock it was read from.

* `Timestamp.ofLocal? date clock offset` — the timestamp that such a clock shows;
* `Timestamp.date`, `Timestamp.clock` — what that clock shows at a timestamp;
* `Timestamp.ofUnix? seconds nanosecond` — an instant by its Unix time, on a clock in UTC;
* `Timestamp.rfc3339 t zulu` — the timestamp as text.
-/

namespace LegibleLog.Time

/-- What a clock shows. In a leap second the nanoseconds go on from `10 ^ 9`, the second staying 59. -/
structure Clock where
  hour : Nat
  minute : Nat
  second : Nat
  nanosecond : Nat
deriving Repr, DecidableEq

namespace Clock

/-- The time of day exists. -/
def isValid (c : Clock) : Bool :=
  c.hour < 24 && c.minute < 60 && c.second < 60 &&
    (c.nanosecond < 1000000000 || (c.nanosecond < 2000000000 && c.second == 59))

/-- Whole seconds since midnight. -/
def seconds (c : Clock) : Nat := c.hour * 3600 + c.minute * 60 + c.second

/-- The second as it is written, 60 in a leap second. -/
def shownSecond (c : Clock) : Nat := c.second + c.nanosecond / 1000000000

/-- The part of the second as it is written. -/
def shownNanosecond (c : Clock) : Nat := c.nanosecond % 1000000000

end Clock

/-- An instant, as whole seconds since the start of 1970 in UTC and nanoseconds, and an offset in seconds east. -/
structure Timestamp where
  seconds : Int
  nanosecond : Nat
  offset : Int
deriving Repr, DecidableEq

namespace Timestamp

/-- The number of the first day of 1970. -/
def epochDay : Int := 719163

/-- The date on a clock that is `seconds` past the start of 1970. -/
def dateAt (seconds : Int) : Date := Date.ofDayNumber (seconds / 86400 + epochDay)

/-- The date that the timestamp's own clock shows. -/
def date (t : Timestamp) : Date := dateAt (t.seconds + t.offset)

/-- The time of day that the timestamp's own clock shows. -/
def clock (t : Timestamp) : Clock :=
  let n := ((t.seconds + t.offset) % 86400).toNat
  ⟨n / 3600, n / 60 % 60, n % 60, t.nanosecond⟩

/-- The instant lies in the years that a date may have. -/
def inRange (seconds : Int) : Bool := (dateAt seconds).isValid

/-- The timestamp of a clock with the given offset that shows the given date and time. -/
def ofLocal? (date : Date) (clock : Clock) (offset : Int) : Option Timestamp :=
  if date.isValid && clock.isValid && -86400 < offset && offset < 86400 then
    let seconds := (date.dayNumber - epochDay) * 86400 + (clock.seconds : Int) - offset
    if inRange seconds then some ⟨seconds, clock.nanosecond, offset⟩ else none
  else none

/-- The instant with the given Unix time, on a clock in UTC. -/
def ofUnix? (seconds : Int) (nanosecond : Nat) : Option Timestamp :=
  if inRange seconds then some ⟨seconds, nanosecond, 0⟩ else none

/-- A number in at least `width` digits. -/
def padded (width n : Nat) : String := Text.padLeft '0' width (toString n)

/-- A year in four digits, or with a sign when it is outside 0 to 9999. -/
def yearText (year : Int) : String :=
  if 0 ≤ year ∧ year ≤ 9999 then padded 4 year.toNat
  else (if year < 0 then "-" else "+") ++ padded 4 year.natAbs

/-- The fraction of a second with its point, in three, six or nine digits as needed, and nothing when it is zero. -/
def fractionText (nanosecond : Nat) : String :=
  if nanosecond = 0 then ""
  else if nanosecond % 1000000 = 0 then "." ++ padded 3 (nanosecond / 1000000)
  else if nanosecond % 1000 = 0 then "." ++ padded 6 (nanosecond / 1000)
  else "." ++ padded 9 nanosecond

/-- An offset as sign, hours and minutes, with `separator` between them. -/
def offsetText (separator : String) (offset : Int) : String :=
  let minutes := offset.natAbs / 60
  (if offset < 0 then "-" else "+") ++ padded 2 (minutes / 60) ++ separator ++ padded 2 (minutes % 60)

/-- The timestamp in the form of RFC 3339; with `zulu`, a zero offset is written `Z`. -/
def rfc3339 (t : Timestamp) (zulu : Bool) : String :=
  let d := t.date
  let c := t.clock
  let zone := if zulu && t.offset == 0 then "Z" else offsetText ":" t.offset
  yearText d.year ++ "-" ++ padded 2 d.month ++ "-" ++ padded 2 d.day ++ "T" ++ padded 2 c.hour ++ ":" ++
    padded 2 c.minute ++ ":" ++ padded 2 c.shownSecond ++ fractionText c.shownNanosecond ++ zone

end Timestamp

end LegibleLog.Time
