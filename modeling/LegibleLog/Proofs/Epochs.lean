import LegibleLog.Proofs.Calendar
import LegibleLog.Proofs.Rounding
import LegibleLog.Time.Epoch

/-!
# Integers as Unix times

All steps from a number to its instant are rounded to doubles. For integers that are doubles themselves, up to `2 ^ 53`,
none of the roundings does any harm.

* `epochUnit n` — how many of the units that `n` counts make a second;
* `floor_div_epochUnit`, `mul_epochUnit`, `sub_epochUnit`, `nanoseconds_epochUnit` — the steps one by one;
* `Timestamp.ofEpoch?_integer` — the instant, without any error.
-/

namespace LegibleLog.Time

/-- How many of the units that an integer counts make a second: it counts seconds, milliseconds or microseconds. -/
def epochUnit (n : Int) : Int := if |n| ≤ 10 ^ 12 then 1 else if |n| ≤ 10 ^ 15 then 10 ^ 3 else 10 ^ 6

variable {n : Int}

theorem epochUnit_cases (n : Int) :
    (epochUnit n = 1 ∧ |n| ≤ 10 ^ 12) ∨ (epochUnit n = 10 ^ 3 ∧ |n| ≤ 10 ^ 15) ∨ epochUnit n = 10 ^ 6 := by
  unfold epochUnit
  split
  · next hseconds => exact .inl ⟨rfl, hseconds⟩
  · split
    · next hmillis => exact .inr (.inl ⟨rfl, hmillis⟩)
    · exact .inr (.inr rfl)

theorem epochUnit_pos (n : Int) : 0 < epochUnit n := by
  rcases epochUnit_cases n with ⟨hu, -⟩ | ⟨hu, -⟩ | hu
  all_goals
    rw [hu]
    decide

/-- A second has a whole number of nanoseconds to each unit. -/
theorem epochUnit_dvd (n : Int) : epochUnit n ∣ 10 ^ 9 := by
  rcases epochUnit_cases n with ⟨hu, -⟩ | ⟨hu, -⟩ | hu
  all_goals
    rw [hu]
    decide

/-- The magnitude decides so; nanoseconds are counted only beyond all these integers. -/
theorem unitsPerSecond_abs (h : |n| ≤ 2 ^ 53) : unitsPerSecond (n : Rat).abs = epochUnit n := by
  have hnanos : ¬ (1_000_000_000_000_000_000 : Rat) < |(n : Rat)| := by
    rw [← Int.cast_abs, not_lt]
    exact_mod_cast h.trans (by decide)
  have hmicros : (1_000_000_000_000_000 : Rat) < |(n : Rat)| ↔ ¬ |n| ≤ 10 ^ 15 := by
    rw [← Int.cast_abs, not_le]
    norm_cast
  have hmillis : (1_000_000_000_000 : Rat) < |(n : Rat)| ↔ ¬ |n| ≤ 10 ^ 12 := by
    rw [← Int.cast_abs, not_le]
    norm_cast
  rw [Binary64.ratAbs_eq, unitsPerSecond, if_neg hnanos, epochUnit]
  by_cases hseconds : |n| ≤ 10 ^ 12
  · have hmore : |n| ≤ 10 ^ 15 := hseconds.trans (by decide)
    rw [if_neg (mt hmicros.mp (not_not_intro hmore)), if_neg (mt hmillis.mp (not_not_intro hseconds)), if_pos hseconds,
      Int.cast_one]
  · rw [if_pos (hmillis.mpr hseconds), if_neg hseconds]
    by_cases hmore : |n| ≤ 10 ^ 15
    · rw [if_neg (mt hmicros.mp (not_not_intro hmore)), if_pos hmore]
      norm_num
    · rw [if_pos (hmicros.mpr hmore), if_neg hmore]
      norm_num

/-! ### The steps -/

/-- The seconds. -/
theorem floor_div_epochUnit (h : |n| ≤ 2 ^ 53) : (Binary64.div n (epochUnit n)).floor = n / epochUnit n := by
  rcases epochUnit_cases n with ⟨hu, hn⟩ | ⟨hu, hn⟩ | hu
  · rw [hu]
    exact Binary64.floor_div 13 (by decide) (by decide) (by omega) (by decide)
  · rw [hu]
    exact Binary64.floor_div 13 (by decide) (by decide) (by omega) (by decide)
  · rw [hu]
    exact Binary64.floor_div 19 (by decide) (by decide) (by omega) (by decide)

/-- The seconds counted in units again: an integer of 54 bits at most, with a zero at the end if there are more than 53.
-/
theorem mul_epochUnit (h : |n| ≤ 2 ^ 53) :
    Binary64.mul ((n / epochUnit n : Int) : Rat) (epochUnit n) = ((n / epochUnit n * epochUnit n : Int) : Rat) := by
  rw [Binary64.mul, ← Int.cast_mul]
  obtain ⟨hlow, hhigh⟩ := abs_le.mp h
  rcases epochUnit_cases n with ⟨hu, hn⟩ | ⟨hu, -⟩ | hu
  · rw [hu, Int.ediv_one, mul_one]
    exact Binary64.nearest_intCast_of_lt (hn.trans_lt (by decide))
  · rw [hu]
    exact Binary64.nearest_intCast 1 (Dvd.dvd.mul_left (by decide) _) (abs_lt.mpr ⟨by omega, by omega⟩)
  · rw [hu]
    exact Binary64.nearest_intCast 1 (Dvd.dvd.mul_left (by decide) _) (abs_lt.mpr ⟨by omega, by omega⟩)

/-- What the seconds leave. -/
theorem sub_epochUnit (n : Int) :
    Binary64.sub n ((n / epochUnit n * epochUnit n : Int) : Rat) = ((n % epochUnit n : Int) : Rat) := by
  have hrest : n - n / epochUnit n * epochUnit n = n % epochUnit n := by
    rw [Int.emod_def, mul_comm]
  have hlow := Int.emod_nonneg n (epochUnit_pos n).ne'
  have hhigh := Int.emod_lt_of_pos n (epochUnit_pos n)
  have hunit := Int.le_of_dvd (by decide) (epochUnit_dvd n)
  rw [Binary64.sub, ← Int.cast_sub, hrest]
  exact Binary64.nearest_intCast_of_lt (abs_lt.mpr ⟨by omega, by omega⟩)

/-- The rest of a second has fewer nanoseconds than a second. -/
theorem nanoseconds_epochUnit (n : Int) :
    0 ≤ n % epochUnit n * (10 ^ 9 / epochUnit n) ∧ n % epochUnit n * (10 ^ 9 / epochUnit n) < 10 ^ 9 := by
  rcases epochUnit_cases n with ⟨hu, -⟩ | ⟨hu, -⟩ | hu
  all_goals
    rw [hu]
    omega

theorem mul_nanoseconds (n : Int) :
    Binary64.mul ((n % epochUnit n : Int) : Rat) (1_000_000_000 / (epochUnit n : Rat)) =
      ((n % epochUnit n * (10 ^ 9 / epochUnit n) : Int) : Rat) := by
  have hunit : (epochUnit n : Rat) ≠ 0 := by exact_mod_cast (epochUnit_pos n).ne'
  have hparts : (1_000_000_000 : Rat) / epochUnit n = ((10 ^ 9 / epochUnit n : Int) : Rat) := by
    rw [Int.cast_div (epochUnit_dvd n) hunit]
    norm_num
  obtain ⟨hlow, hhigh⟩ := nanoseconds_epochUnit n
  rw [Binary64.mul, hparts, ← Int.cast_mul]
  exact Binary64.nearest_intCast_of_lt (abs_lt.mpr ⟨by omega, by omega⟩)

/-! ### The instant -/

/-- The seconds are those of a year that a date may have. -/
theorem inRange_epochUnit (h : |n| ≤ 2 ^ 53) : Timestamp.inRange (n / epochUnit n) = true := by
  rw [Timestamp.inRange_iff]
  rcases epochUnit_cases n with ⟨hu, hn⟩ | ⟨hu, hn⟩ | hu
  · obtain ⟨hlow, hhigh⟩ := abs_le.mp hn
    rw [hu]
    omega
  · obtain ⟨hlow, hhigh⟩ := abs_le.mp hn
    rw [hu]
    omega
  · obtain ⟨hlow, hhigh⟩ := abs_le.mp h
    rw [hu]
    omega

/-- **Integers are resolved exactly.** An integer up to `2 ^ 53`, on either side of zero, is a double, and it is the Unix
time of an instant in UTC: its whole seconds, rounded down, and all that they leave, in nanoseconds. -/
theorem Timestamp.ofEpoch?_integer (h : |n| ≤ 2 ^ 53) :
    Binary64.nearest n = n ∧ ∃ t, Timestamp.ofEpoch? n = some t ∧ t.offset = 0 ∧ t.seconds = n / epochUnit n ∧
      (t.nanosecond : Int) = (n - epochUnit n * (n / epochUnit n)) * (10 ^ 9 / epochUnit n) := by
  obtain ⟨hlow, hhigh⟩ := nanoseconds_epochUnit n
  have hrest : n - epochUnit n * (n / epochUnit n) = n % epochUnit n := (Int.emod_def n _).symm
  have hclamp : min (n % epochUnit n * (10 ^ 9 / epochUnit n)).toNat 999_999_999 =
      (n % epochUnit n * (10 ^ 9 / epochUnit n)).toNat := Nat.min_eq_left (by omega)
  refine ⟨Binary64.nearest_intCast_of_le h,
    ⟨n / epochUnit n, (n % epochUnit n * (10 ^ 9 / epochUnit n)).toNat, 0⟩, ?_, rfl, rfl, ?_⟩
  · rw [ofEpoch?, unitsPerSecond_abs h, floor_div_epochUnit h, mul_epochUnit h, sub_epochUnit, mul_nanoseconds,
      Binary64.roundAway_intCast hlow, hclamp, ofUnix?, if_pos (inRange_epochUnit h)]
  · rw [hrest]
    exact Int.toNat_of_nonneg hlow

/-- Microseconds before 1970, one of them before a whole second: the quotient is rounded, but not to the second. -/
theorem Timestamp.ofEpoch?_integer_before_1970 :
    |(-9007199254000001 : Int)| ≤ 2 ^ 53 ∧
      Timestamp.ofEpoch? ((-9007199254000001 : Int) : Rat) = some ⟨-9007199255, 999999000, 0⟩ := by
  have h : |(-9007199254000001 : Int)| ≤ 2 ^ 53 := by decide
  have hunit : epochUnit (-9007199254000001) = 10 ^ 6 := by decide
  obtain ⟨-, ⟨seconds, nanosecond, offset⟩, ht, hoffset, hseconds, hnanosecond⟩ := ofEpoch?_integer h
  rw [hunit] at hseconds hnanosecond
  dsimp only at hoffset hseconds hnanosecond
  obtain rfl : seconds = -9007199255 := hseconds
  obtain rfl : nanosecond = 999999000 := by omega
  exact ⟨h, hoffset ▸ ht⟩

end LegibleLog.Time
