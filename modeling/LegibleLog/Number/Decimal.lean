import LegibleLog.Number.Binary64
import LegibleLog.Number.Digits

/-!
# Decimal numerals

A numeral is an optional sign, digits with at most one point among or beside them, and an optional power of ten.

* `Decimal.parse? cs` — the numeral that `cs` spells;
* `Decimal.toBinary64? d` — the double nearest to it, if it is finite.

Of the digits of a numeral, zeros in front aside, those after the first 800 only tell whether the numeral lies above what
the 800 write.  No double and no number halfway between two doubles has so many digits, so none of them lies between a
numeral and what is kept of it.
-/

namespace LegibleLog

/-- The number `± digits · 10 ^ exponent`. -/
structure Decimal where
  negative : Bool
  digits : Nat
  exponent : Int
deriving Repr, DecidableEq

namespace Decimal

/-- The value of a numeral. -/
def toRat (d : Decimal) : Rat :=
  let magnitude := (d.digits : Rat) * 10 ^ d.exponent
  if d.negative then -magnitude else magnitude

/-- Takes an optional sign off; the flag says whether it was a minus. -/
def splitSign : List Char → Bool × List Char
  | '-' :: r => (true, r)
  | '+' :: r => (false, r)
  | r => (false, r)

/-- The number that the digits of a power of ten write. Digits count until it has reached `2 ^ 16`. -/
def powerOfDigits (ds : List Char) : Nat :=
  ds.foldl (fun n c => if n < 0x1_0000 then 10 * n + digitValue c else n) 0

/-- The power of ten after the digits: nothing, or `e`, an optional sign and digits to the end. -/
def parseExponent? : List Char → Option Int
  | [] => some 0
  | c :: r =>
    if c == 'e' || c == 'E' then
      let (negative, ds) := splitSign r
      if !ds.isEmpty && ds.all Char.isDigit then
        let n : Int := powerOfDigits ds
        some (if negative then -n else n)
      else none
    else none

/-- The number that digits write, times a power of ten. Digits after the first 800 are cut off; unless all of them are
zeros, a digit one stands in their place. -/
def ofDigits (negative : Bool) (ds : List Char) (power : Int) : Decimal :=
  let significant := ds.dropWhile (· == '0')
  let kept := natOfDigits (significant.take 800)
  let cut := significant.drop 800
  if cut.all (· == '0') then ⟨negative, kept, power + (cut.length : Int)⟩
  else ⟨negative, 10 * kept + 1, power + (cut.length : Int) - 1⟩

/-- The numeral that a text spells. -/
def parse? (cs : List Char) : Option Decimal :=
  let (negative, r) := splitSign cs
  let whole := r.takeWhile Char.isDigit
  let (fraction, tail) :=
    match r.dropWhile Char.isDigit with
    | '.' :: t => (t.takeWhile Char.isDigit, t.dropWhile Char.isDigit)
    | t => ([], t)
  if whole.isEmpty && fraction.isEmpty then none
  else
    (parseExponent? tail).map fun power =>
      ofDigits negative (whole ++ fraction) (power - (fraction.length : Int))

/-- The double nearest to a numeral, if it is finite. The first two branches spare the arithmetic where the power of
ten alone decides: beyond `10 ^ 400` no double is finite, below `10 ^ -400` all are zero. -/
def toBinary64? (d : Decimal) : Option Rat :=
  if d.digits = 0 || d.exponent < -400 - (d.digits.log2 : Int) then some 0
  else if 400 < d.exponent then none
  else Binary64.nearest? d.toRat

end Decimal

end LegibleLog
