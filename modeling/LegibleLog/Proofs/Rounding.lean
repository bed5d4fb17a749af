import LegibleLog.Number.Binary64
import Mathlib.Algebra.Order.Field.Basic
import Mathlib.Algebra.Order.Ring.Abs
import Mathlib.Algebra.Order.Ring.Rat
import Mathlib.Algebra.Order.Field.Power
import Mathlib.Tactic.Linarith

/-!
# Rounding

* `Binary64.abs_roundEven_sub_le` — the nearest integer is at most half away;
* `Binary64.abs_nearest_le` — the nearest double is at most twice as large;
* `Binary64.nearest?_of_abs_lt` — so a number well below the largest double has a finite one;
* `Binary64.nearest_eq_self` — a number that is a double stays as it is, and with it integers as `nearest_intCast` says;
* `Binary64.abs_nearest_sub_le` — any other is missed by half of the last place at most;
* `Binary64.floor_div` — a quotient of integers that is not too large is rounded without passing an integer.
-/

namespace LegibleLog.Binary64

variable {x : Rat}

theorem abs_roundEven_sub_le (x : Rat) : |(roundEven x : Rat) - x| ≤ 1 / 2 := by
  have hlow := Rat.floor_le x
  have hhigh := Rat.lt_floor_add_one x
  rw [Int.cast_add, Int.cast_one] at hhigh
  rw [abs_le]
  unfold roundEven
  dsimp only
  split_ifs with hbelow habove heven
  · constructor <;> linarith
  · push_cast
    constructor <;> linarith
  · constructor <;> linarith
  · push_cast
    constructor <;> linarith

/-- A number below one half is rounded to zero, and any other is at least half of what it is rounded to. -/
theorem abs_roundEven_le (x : Rat) : |(roundEven x : Rat)| ≤ 2 * |x| := by
  have hnear := abs_roundEven_sub_le x
  have htriangle : |(roundEven x : Rat)| ≤ |(roundEven x : Rat) - x| + |x| := by
    have h := abs_add_le ((roundEven x : Rat) - x) x
    rwa [sub_add_cancel] at h
  by_cases hhalf : |x| < 1 / 2
  · have hlt : |(roundEven x : Rat)| < 1 := by linarith
    have hzero : roundEven x = 0 := by
      rw [← Int.abs_lt_one_iff]
      exact_mod_cast hlt
    rw [hzero, Int.cast_zero, abs_zero]
    have hpos := abs_nonneg x
    linarith
  · linarith

theorem ratAbs_eq (x : Rat) : x.abs = |x| := by
  rcases le_total 0 x with h | h
  · rw [Rat.abs_of_nonneg h, abs_of_nonneg h]
  · rw [Rat.abs_of_nonpos h, abs_of_nonpos h]

theorem abs_nearest_le (x : Rat) : |nearest x| ≤ 2 * |x| := by
  unfold nearest
  split
  · rw [abs_zero]
    have hpos := abs_nonneg x
    linarith
  · have hunit : (0 : Rat) < 2 ^ unitExponent x := Rat.zpow_pos (by decide)
    generalize (2 : Rat) ^ unitExponent x = unit at hunit
    calc |(roundEven (x / unit) : Rat) * unit|
        = |(roundEven (x / unit) : Rat)| * unit := by rw [abs_mul, abs_of_pos hunit]
      _ ≤ 2 * |x / unit| * unit := by
          apply mul_le_mul_of_nonneg_right (abs_roundEven_le _) hunit.le
      _ = 2 * |x| := by
          rw [abs_div, abs_of_pos hunit, mul_assoc, div_mul_cancel₀ _ hunit.ne']

/-- **A number well below the largest double** has a finite one nearest to it. -/
theorem nearest?_of_abs_lt {k : Nat} (hk : k ≤ 1024) (h : 2 * |x| < 2 ^ k) : nearest? x = some (nearest x) := by
  have hlt : (nearest x).abs < 2 ^ (1024 : Nat) := by
    rw [ratAbs_eq]
    calc |nearest x| ≤ 2 * |x| := abs_nearest_le x
      _ < 2 ^ k := h
      _ ≤ 2 ^ (1024 : Nat) := pow_le_pow_right₀ (by decide) hk
  exact if_pos hlt

/-! ### The last place -/

/-- The largest power of two that is not above a number. -/
theorem two_zpow_log2_le (h : 0 < x) : 2 ^ log2 x ≤ x := by
  unfold log2
  dsimp only
  split
  · next hguess => exact hguess
  · have hnum : 0 < x.num := Rat.num_pos.mpr h
    have hden : (0 : Rat) < x.den := by exact_mod_cast x.den_pos
    have hlow : (2 : Rat) ^ (x.num.natAbs.log2 : Int) ≤ x.num := by
      have hle : 2 ^ x.num.natAbs.log2 ≤ x.num.natAbs := Nat.log2_self_le (by omega)
      have habs : ((x.num.natAbs : Nat) : Rat) = x.num := by
        rw [Nat.cast_natAbs, abs_of_pos hnum]
      rw [zpow_natCast, ← habs]
      exact_mod_cast hle
    have hhigh : (x.den : Rat) ≤ 2 ^ ((x.den.log2 : Int) + 1) := by
      have hlt : x.den < 2 ^ (x.den.log2 + 1) := Nat.lt_log2_self
      rw [← Nat.cast_succ, zpow_natCast]
      exact_mod_cast hlt.le
    rw [sub_sub, zpow_sub₀ (by norm_num), div_le_iff₀ (Rat.zpow_pos (by decide))]
    calc (2 : Rat) ^ (x.num.natAbs.log2 : Int)
        ≤ x.num := hlow
      _ = x * x.den := (Rat.mul_den_eq_num x).symm
      _ ≤ x * 2 ^ ((x.den.log2 : Int) + 1) := mul_le_mul_of_nonneg_left hhigh h.le

variable {e : Int}

/-- The last place of a number below `2 ^ (e + 53)` is at most `2 ^ e`. -/
theorem unitExponent_le (hx : x ≠ 0) (hlow : -1074 ≤ e) (h : |x| < 2 ^ (e + 53)) : unitExponent x ≤ e := by
  have hpower : (2 : Rat) ^ log2 |x| < 2 ^ (e + 53) := lt_of_le_of_lt (two_zpow_log2_le (abs_pos.mpr hx)) h
  have hlog : log2 |x| < e + 53 := (zpow_lt_zpow_iff_right₀ (by norm_num)).mp hpower
  rw [unitExponent, ratAbs_eq]
  omega

theorem nearest_of_ne_zero (hx : x ≠ 0) :
    nearest x = (roundEven (x / 2 ^ unitExponent x) : Rat) * 2 ^ unitExponent x := if_neg hx

/-- **The error of rounding** is half of the last place at most. -/
theorem abs_nearest_sub_le (hlow : -1074 ≤ e) (h : |x| < 2 ^ (e + 53)) : |nearest x - x| ≤ 2 ^ e / 2 := by
  by_cases hx : x = 0
  · rw [hx, nearest, if_pos rfl, sub_zero, abs_zero]
    exact (div_pos (Rat.zpow_pos (by decide)) (by norm_num)).le
  · have hunit : (0 : Rat) < 2 ^ unitExponent x := Rat.zpow_pos (by decide)
    have hle : (2 : Rat) ^ unitExponent x ≤ 2 ^ e := zpow_le_zpow_right₀ (by norm_num) (unitExponent_le hx hlow h)
    rw [nearest_of_ne_zero hx]
    generalize (2 : Rat) ^ unitExponent x = unit at hunit hle
    calc |(roundEven (x / unit) : Rat) * unit - x|
        = |(roundEven (x / unit) : Rat) - x / unit| * unit := by
          rw [← abs_of_pos hunit, ← abs_mul, abs_of_pos hunit, sub_mul, div_mul_cancel₀ _ hunit.ne']
      _ ≤ 1 / 2 * unit := mul_le_mul_of_nonneg_right (abs_roundEven_sub_le _) hunit.le
      _ ≤ 2 ^ e / 2 := by linarith

/-! ### Doubles -/

theorem floor_intCast_add {k : Int} (h0 : 0 ≤ x) (h1 : x < 1) : ((k : Rat) + x).floor = k := by
  have hlow := Rat.floor_le ((k : Rat) + x)
  have hhigh := Rat.lt_floor_add_one ((k : Rat) + x)
  rw [Int.cast_add, Int.cast_one] at hhigh
  have habove : (k : Rat) < ((k : Rat) + x).floor + 1 := by linarith
  have hbelow : (((k : Rat) + x).floor : Rat) < k + 1 := by linarith
  norm_cast at habove hbelow
  omega

theorem roundEven_intCast (k : Int) : roundEven k = k := by
  have hfloor : (k : Rat).floor = k := by
    rw [← add_zero (k : Rat)]
    exact floor_intCast_add le_rfl (by norm_num)
  unfold roundEven
  dsimp only
  rw [hfloor, sub_self, if_pos (by norm_num)]

theorem roundAway_intCast {k : Int} (h : 0 ≤ k) : roundAway k = k := by
  rw [roundAway, if_pos (by exact_mod_cast h)]
  exact floor_intCast_add (by norm_num) (by norm_num)

/-- **A number that is a double** stays as it is: an integer of 53 bits times a power of two. -/
theorem nearest_eq_self {m : Int} (hlow : -1074 ≤ e) (hx : x = m * 2 ^ e) (h : |x| < 2 ^ (e + 53)) : nearest x = x := by
  by_cases hzero : x = 0
  · rw [hzero]
    exact if_pos rfl
  · have hle : unitExponent x ≤ e := unitExponent_le hzero hlow h
    rw [nearest_of_ne_zero hzero]
    generalize unitExponent x = unit at hle
    obtain ⟨shift, hshift⟩ := Int.eq_ofNat_of_zero_le (sub_nonneg.mpr hle)
    have hunit : (2 : Rat) ^ unit ≠ 0 := (Rat.zpow_pos (by decide)).ne'
    have hplaces : x / 2 ^ unit = ((m * 2 ^ shift : Int) : Rat) := by
      rw [hx, mul_div_assoc, ← zpow_sub₀ (by norm_num), hshift, zpow_natCast]
      push_cast
      rfl
    rw [hplaces, roundEven_intCast, ← hplaces, div_mul_cancel₀ _ hunit]

/-- Integers of 53 bits, and those of more that end in zeros. -/
theorem nearest_intCast {n : Int} (places : Nat) (hdvd : 2 ^ places ∣ n) (h : |n| < 2 ^ (places + 53)) :
    nearest n = n := by
  obtain ⟨m, rfl⟩ := hdvd
  refine nearest_eq_self (m := m) (e := places) (by omega) ?_ ?_
  · rw [zpow_natCast]
    push_cast
    exact mul_comm _ _
  · rw [← Int.cast_abs]
    exact_mod_cast h

theorem nearest_intCast_of_lt {n : Int} (h : |n| < 2 ^ 53) : nearest n = n :=
  nearest_intCast 0 (one_dvd n) h

theorem nearest_intCast_of_le {n : Int} (h : |n| ≤ 2 ^ 53) : nearest n = n := by
  rcases h.lt_or_eq with hlt | heq
  · exact nearest_intCast_of_lt hlt
  · have heven : (2 : Int) ^ 1 ∣ n := (dvd_abs _ _).mp (heq ▸ by decide)
    exact nearest_intCast 1 heven (heq ▸ by decide)

/-- **Quotients of integers.** Where a quotient keeps so many places behind the point that half of the last of them is
less than a part of the divisor, no integer lies between the quotient and what it is rounded to. -/
theorem floor_div {n u : Int} (places : Nat) (hplaces : places ≤ 1074) (hu : 0 < u) (h : |n| * 2 ^ places < u * 2 ^ 53)
    (hplace : u < 2 * 2 ^ places) : (div n u).floor = n / u := by
  have hpos : (0 : Rat) < u := by exact_mod_cast hu
  have hpower : (2 : Rat) ^ (-(places : Int)) = 1 / 2 ^ places := by
    rw [zpow_neg, zpow_natCast, one_div]
  have hsize : |(n : Rat) / u| < 2 ^ (-(places : Int) + 53) := by
    have hcast : |(n : Rat)| * 2 ^ places < u * 2 ^ 53 := by exact_mod_cast h
    rw [zpow_add₀ (by norm_num), hpower, abs_div, abs_of_pos hpos, div_lt_iff₀ hpos, one_div_mul_eq_div, div_mul_eq_mul_div,
      lt_div_iff₀ (by positivity)]
    linarith
  have hquotient : (n : Rat) / u = ((n / u : Int) : Rat) + ((n % u : Int) : Rat) / u := by
    rw [div_eq_iff hpos.ne', add_mul, div_mul_cancel₀ _ hpos.ne']
    exact_mod_cast (Int.ediv_mul_add_emod n u).symm
  rw [div]
  by_cases hrest : n % u = 0
  · rw [hrest, Int.cast_zero, zero_div, add_zero] at hquotient
    have hint : |n / u| < 2 ^ 53 := by
      have hle : (2 : Rat) ^ (-(places : Int) + 53) ≤ 2 ^ (53 : Int) := zpow_le_zpow_right₀ (by norm_num) (by omega)
      rw [hquotient, ← Int.cast_abs] at hsize
      exact_mod_cast hsize.trans_le hle
    have hfloor := floor_intCast_add (x := 0) (k := n / u) le_rfl (by norm_num)
    rwa [hquotient, nearest_intCast_of_lt hint, ← add_zero ((n / u : Int) : Rat)]
  · have hone : (1 : Rat) ≤ ((n % u : Int) : Rat) := by
      have hnonneg := Int.emod_nonneg n hu.ne'
      exact_mod_cast (by omega : 1 ≤ n % u)
    have hlast : ((n % u : Int) : Rat) + 1 ≤ u := by exact_mod_cast Int.emod_lt_of_pos n hu
    have hpart : (2 : Rat) ^ (-(places : Int)) / 2 < 1 / u := by
      have hcast : (u : Rat) < 2 * 2 ^ places := by exact_mod_cast hplace
      rw [hpower, div_div]
      exact one_div_lt_one_div_of_lt hpos (by linarith)
    have hfirst : 1 / (u : Rat) ≤ ((n % u : Int) : Rat) / u := div_le_div_of_nonneg_right hone hpos.le
    have hfinal : ((n % u : Int) : Rat) / u ≤ 1 - 1 / u := by
      rw [le_sub_iff_add_le, ← add_div, div_le_one hpos]
      exact hlast
    obtain ⟨hbelow, habove⟩ := abs_le.mp (abs_nearest_sub_le (by omega) hsize)
    have hbetween := floor_intCast_add (x := nearest (n / u) - (n / u : Int)) (k := n / u) (by linarith) (by linarith)
    rwa [add_sub_cancel] at hbetween

end LegibleLog.Binary64
