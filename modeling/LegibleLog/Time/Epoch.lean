import LegibleLog.Number.Binary64
import LegibleLog.Time.Timestamp

/-!
# Epoch numbers

`Timestamp.ofEpoch? x` reads the double `x` as Unix time in seconds, milliseconds, microseconds or nanoseconds; its
magnitude decides which.  All arithmetic is that of doubles.
-/

namespace LegibleLog.Time

/-- How many of the units that a number of this magnitude counts make a second. -/
def unitsPerSecond (magnitude : Rat) : Rat :=
  if 1_000_000_000_000_000_000 < magnitude then 1_000_000_000
  else if 1_000_000_000_000_000 < magnitude then 1_000_000
  else if 1_000_000_000_000 < magnitude then 1_000
  else 1

/-- The instant at the Unix time `x`. -/
def Timestamp.ofEpoch? (x : Rat) : Option Timestamp :=
  let units := unitsPerSecond x.abs
  let seconds := (Binary64.div x units).floor
  let remainder := Binary64.sub x (Binary64.mul (seconds : Rat) units)
  let nanoseconds := Binary64.roundAway (Binary64.mul remainder (1_000_000_000 / units))
  Timestamp.ofUnix? seconds (min nanoseconds.toNat 999_999_999)

end LegibleLog.Time
