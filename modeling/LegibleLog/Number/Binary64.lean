/-!
# Doubles as rationals

A finite double is taken as the rational number it stands for, and arithmetic on doubles as exact arithmetic
followed by `nearest`, the rounding to binary64 (53 bits, exponents down to -1074, ties to even).

* `unitExponent x` — the power of two that is the last place of a double near `x`;
* `nearest x` — the double nearest to `x`, no upper end of the range considered;
* `nearest? x` — the same, and nothing when it lies beyond the largest double.
-/

namespace LegibleLog.Binary64

/-- The largest power of two, by its exponent, not above the positive `x`. -/
def log2 (x : Rat) : Int :=
  let guess : Int := (x.num.natAbs.log2 : Int) - (x.den.log2 : Int)
  if (2 : Rat) ^ guess ≤ x then guess else guess - 1

/-- The exponent of the last place of a double near `x`. -/
def unitExponent (x : Rat) : Int := max (log2 x.abs - 52) (-1074)

/-- The integer nearest to `x`, and the even one of two. -/
def roundEven (x : Rat) : Int :=
  let low := x.floor
  let rest := x - (low : Rat)
  if rest < 1 / 2 then low
  else if 1 / 2 < rest then low + 1
  else if low % 2 = 0 then low else low + 1

/-- The integer nearest to `x`, and of two the one farther from zero. -/
def roundAway (x : Rat) : Int :=
  if 0 ≤ x then (x + 1 / 2).floor else -(-x + 1 / 2).floor

/-- The double nearest to `x` in an unbounded range. -/
def nearest (x : Rat) : Rat :=
  if x = 0 then 0
  else (roundEven (x / 2 ^ unitExponent x) : Rat) * 2 ^ unitExponent x

/-- The double nearest to `x`, if there is a finite one. -/
def nearest? (x : Rat) : Option Rat :=
  let y := nearest x
  if y.abs < 2 ^ (1024 : Nat) then some y else none

/-- The product of two doubles. -/
def mul (x y : Rat) : Rat := nearest (x * y)

/-- The quotient of two doubles. -/
def div (x y : Rat) : Rat := nearest (x / y)

/-- The difference of two doubles. -/
def sub (x y : Rat) : Rat := nearest (x - y)

end LegibleLog.Binary64
