/-!
# Decimal digits

* `natOfDigits ds` — the number that a run of digits writes;
* `natBelow? limit ds` — the same, if it is below a limit; `natBelow?_eq` says so.
-/

namespace LegibleLog

/-- The value of a decimal digit. -/
def digitValue (c : Char) : Nat := c.toNat - '0'.toNat

/-- The number that digits write after those of `n`. -/
def natAfter (n : Nat) (ds : List Char) : Nat := ds.foldl (fun n c => 10 * n + digitValue c) n

/-- The number that a run of digits writes. -/
def natOfDigits (ds : List Char) : Nat := natAfter 0 ds

@[simp]
theorem natAfter_cons (n : Nat) (c : Char) (r : List Char) :
    natAfter n (c :: r) = natAfter (10 * n + digitValue c) r := by
  simp only [natAfter, List.foldl_cons]

/-- The number that digits write after those of `n`, if it is below a limit. -/
def natBelowFrom? (limit n : Nat) : List Char → Option Nat
  | [] => some n
  | c :: r =>
    let next := 10 * n + digitValue c
    if next < limit then natBelowFrom? limit next r else none

/-- The number that a run of digits writes, if it is below a limit. -/
def natBelow? (limit : Nat) (ds : List Char) : Option Nat := natBelowFrom? limit 0 ds

theorem le_natAfter (n : Nat) (ds : List Char) : n ≤ natAfter n ds := by
  induction ds generalizing n with
  | nil => exact Nat.le_refl n
  | cons c r ih =>
    have hrest := ih (10 * n + digitValue c)
    rw [natAfter_cons]
    omega

theorem natBelowFrom?_eq {limit n : Nat} (h : n < limit) (ds : List Char) :
    natBelowFrom? limit n ds = if natAfter n ds < limit then some (natAfter n ds) else none := by
  induction ds generalizing n with
  | nil => simp [natBelowFrom?, natAfter, h]
  | cons c r ih =>
    rw [natBelowFrom?, natAfter_cons]
    split
    · next hn => exact ih hn
    · next hn =>
      have hle := le_natAfter (10 * n + digitValue c) r
      rw [if_neg (by omega)]

/-- Digits are read below a limit exactly when the number that they write is below it. -/
theorem natBelow?_eq {limit : Nat} (h : 0 < limit) (ds : List Char) :
    natBelow? limit ds = if natOfDigits ds < limit then some (natOfDigits ds) else none :=
  natBelowFrom?_eq h ds

end LegibleLog
