import LegibleLog.Number.Binary64

/-!
# Shortest digits

* `Shortest.digits x` — of the decimals that read back as the positive double `x`, one with the fewest digits, and
  of those the nearest to `x`, as digits and a power of ten;
* `Shortest.text negative x` — the double written with these digits.
-/

namespace LegibleLog.Shortest

open Binary64

/-- The largest power of ten, by its exponent, not above the positive `x`. -/
def log10 (x : Rat) : Int :=
  let guess := Int.fdiv (log2 x * 30103) 100000
  if x < 10 ^ guess then guess - 1
  else if (10 : Rat) ^ (guess + 1) ≤ x then guess + 1
  else guess

/-- The numbers that are read as a double: from the midpoint to the neighbour below to the midpoint to the one above,
counted in quarters of its last place, which are `2 ^ exponent` each. -/
structure Reach where
  double : Nat
  low : Nat
  high : Nat
  exponent : Int
  /-- Whether the midpoints belong to it, as they do where the significand is even. -/
  closed : Bool

/-- The numbers that are read as the positive double `x`. Below a power of two doubles are twice as dense. -/
def Reach.of (x : Rat) : Reach :=
  let unit := unitExponent x
  let significand := (x / 2 ^ unit).floor.toNat
  let dense := significand == 0x10_0000_0000_0000 && -1074 < unit
  ⟨4 * significand, 4 * significand - (if dense then 1 else 2), 4 * significand + 2, unit - 2, significand % 2 == 0⟩

/-- The product of a power of two and a power of ten. -/
def twoTen (two ten : Nat) : Nat := Nat.pow 2 two * Nat.pow 10 ten

/-- The neighbour of a double on the grid of `10 ^ power` that is read as it: the nearer one of two, the even one of two
at the same distance. With `scale` over `grid` quarters to a step of the grid, the multiple `n` lies where
`n * grid / scale` quarters do. -/
def Reach.onGrid? (r : Reach) (power : Int) : Option Nat :=
  let scale := twoTen r.exponent.toNat (-power).toNat
  let grid := twoTen (-r.exponent).toNat power.toNat
  let double := r.double * scale
  let below := double / grid
  let rest := double - below * grid
  let room := (r.double - r.low) * scale
  let roomAbove := (r.high - r.double) * scale
  let fitsBelow := rest < room || (r.closed && rest == room)
  let fitsAbove := grid - rest < roomAbove || (r.closed && grid - rest == roomAbove)
  if fitsBelow && fitsAbove then
    if 2 * rest < grid then some below
    else if grid < 2 * rest then some (below + 1)
    else if below % 2 = 0 then some below else some (below + 1)
  else if fitsBelow then some below
  else if fitsAbove then some (below + 1)
  else none

/-- Fewest digits first: the first grid that holds a number read as `x`. Seventeen digits always do. -/
def digits (x : Rat) : Nat × Int :=
  let top := log10 x
  let reach := Reach.of x
  let candidates := (List.range 17).map fun (k : Nat) => top - (k : Int)
  match candidates.findSome? fun power => (reach.onGrid? power).map (·, power) with
  | some found => found
  | none => ((x / 10 ^ (top - 17)).floor.toNat, top - 17)

/-- The digits of a positive number without zeros at the end, and how many zeros were taken off. -/
def stripZeros (n : Nat) : List Char × Nat :=
  let ds := (Nat.toDigits 10 n).reverse
  ((ds.dropWhile (· == '0')).reverse, (ds.takeWhile (· == '0')).length)

/-- Digits with the power of ten of the last one: point notation while the first digit stands for `10 ^ -5` to
`10 ^ 15`, else a power of ten with its sign. -/
def layOut (ds : List Char) (power : Int) : List Char :=
  let leading := power + (ds.length : Int) - 1
  if -5 ≤ leading ∧ leading ≤ 15 then
    if 0 ≤ power then ds ++ List.replicate power.toNat '0' ++ ['.', '0']
    else if 0 ≤ leading then ds.take (leading.toNat + 1) ++ '.' :: ds.drop (leading.toNat + 1)
    else '0' :: '.' :: List.replicate (-leading - 1).toNat '0' ++ ds
  else
    let sign := if leading < 0 then '-' else '+'
    let significand := if ds.length ≤ 1 then ds else ds.take 1 ++ '.' :: ds.drop 1
    significand ++ 'e' :: sign :: Nat.toDigits 10 leading.natAbs

/-- The text of the double with the given sign and magnitude. -/
def text (negative : Bool) (magnitude : Rat) : String :=
  let body :=
    if magnitude = 0 then ['0', '.', '0']
    else
      let (n, power) := digits magnitude
      let (ds, zeros) := stripZeros n
      layOut ds (power + (zeros : Int))
  String.ofList (if negative then '-' :: body else body)

end LegibleLog.Shortest
