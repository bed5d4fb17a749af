import LegibleLog.Time.Timestamp

/-!
# Days and dates

* `Date.dayNumber_ofDayNumber` — the date of a day number has this number;
* `Date.isValid_ofDayNumber_iff` — it exists exactly when its year may be that of a date;
* `Timestamp.inRange_iff` — which Unix times have a timestamp.
-/

namespace LegibleLog.Time

namespace Date

/-! ### Years -/

/-- The mean length of a year misses the year of a day by one at most. -/
theorem daysBeforeYear_guess (n : Int) :
    daysBeforeYear ((n - 1) * 400 / 146097 + 1 - 1) < n ∧ n ≤ daysBeforeYear ((n - 1) * 400 / 146097 + 1 + 1 + 1) := by
  unfold daysBeforeYear
  dsimp only
  omega

/-- **The year of a day** begins before the day and ends with it or after it. -/
theorem daysBeforeYear_yearOfDayNumber (n : Int) :
    daysBeforeYear (yearOfDayNumber n) < n ∧ n ≤ daysBeforeYear (yearOfDayNumber n + 1) := by
  obtain ⟨hlow, hhigh⟩ := daysBeforeYear_guess n
  unfold yearOfDayNumber
  dsimp only
  generalize (n - 1) * 400 / 146097 + 1 = guess at hlow hhigh
  split
  · next hbefore =>
    rw [Int.sub_add_cancel]
    exact ⟨hlow, hbefore⟩
  · next hbefore =>
    split
    · next hafter => exact ⟨hafter, hhigh⟩
    · next hafter => exact ⟨Int.not_le.mp hbefore, Int.not_lt.mp hafter⟩

theorem daysBeforeYear_mono {year later : Int} (h : year ≤ later) : daysBeforeYear year ≤ daysBeforeYear later := by
  unfold daysBeforeYear
  dsimp only
  omega

/-- The first day of a year is the one after all days before it. -/
theorem le_yearOfDayNumber_iff {year n : Int} : year ≤ yearOfDayNumber n ↔ daysBeforeYear year < n := by
  obtain ⟨hlow, hhigh⟩ := daysBeforeYear_yearOfDayNumber n
  constructor
  · intro h
    have hmono := daysBeforeYear_mono h
    omega
  · intro h
    refine Int.not_lt.mp fun hlater => ?_
    have hmono := daysBeforeYear_mono (Int.add_one_le_of_lt hlater)
    omega

theorem daysBeforeYear_succ (year : Int) :
    daysBeforeYear (year + 1) = daysBeforeYear year + (yearLength year : Int) := by
  unfold daysBeforeYear yearLength isLeapYear
  dsimp only
  split
  · next h =>
    simp only [Bool.and_eq_true, Bool.or_eq_true, beq_iff_eq, bne_iff_ne, ne_eq] at h
    omega
  · next h =>
    simp only [Bool.and_eq_true, Bool.or_eq_true, beq_iff_eq, bne_iff_ne, ne_eq] at h
    omega

/-! ### Months -/

theorem foldl_monthLengths (year : Int) : (monthLengths year).foldl (· + ·) 0 = yearLength year := by
  unfold monthLengths yearLength
  split
  · rfl
  · rfl

/-- A day that is within some months lies in one of them, behind the months in front of it. -/
theorem exists_inMonths (year : Int) (month : Nat) {lengths : List Nat} {day : Nat} (hday : 1 ≤ day)
    (hdays : day ≤ lengths.foldl (· + ·) 0) :
    ∃ front length back, lengths = front ++ length :: back ∧ ∃ rest, 1 ≤ rest ∧ rest ≤ length ∧
      front.foldl (· + ·) rest = day ∧ inMonths year month day lengths = ⟨year, month + front.length, rest⟩ := by
  induction lengths generalizing month day with
  | nil =>
    rw [List.foldl_nil] at hdays
    omega
  | cons length lengths ih =>
    rw [inMonths]
    split
    · next hle => exact ⟨[], length, lengths, rfl, day, hday, hle, rfl, rfl⟩
    · next hle =>
      have hmore : day - length ≤ lengths.foldl (· + ·) 0 := by
        rw [List.foldl_cons, Nat.zero_add, ← Nat.add_zero length, List.foldl_assoc] at hdays
        omega
      obtain ⟨front, length', back, rfl, rest, hlow, hhigh, hsum, hdate⟩ := ih (month + 1) (by omega) hmore
      refine ⟨length :: front, length', back, rfl, rest, hlow, hhigh, ?_, ?_⟩
      · rw [List.foldl_cons, Nat.add_comm, List.foldl_assoc, hsum]
        omega
      · rw [hdate, List.length_cons, Nat.add_right_comm, Nat.add_assoc]

/-! ### Days -/

/-- **The date of a day number**, by its year and by the months of that year. -/
theorem exists_ofDayNumber (n : Int) :
    ∃ front length back rest, monthLengths (yearOfDayNumber n) = front ++ length :: back ∧ 1 ≤ rest ∧ rest ≤ length ∧
      daysBeforeYear (yearOfDayNumber n) + ((front.foldl (· + ·) rest : Nat) : Int) = n ∧
      ofDayNumber n = ⟨yearOfDayNumber n, 1 + front.length, rest⟩ := by
  obtain ⟨hlow, hhigh⟩ := daysBeforeYear_yearOfDayNumber n
  rw [daysBeforeYear_succ] at hhigh
  have hdays : (n - daysBeforeYear (yearOfDayNumber n)).toNat ≤
      (monthLengths (yearOfDayNumber n)).foldl (· + ·) 0 := by
    rw [foldl_monthLengths]
    omega
  obtain ⟨front, length, back, hlengths, rest, hrest, hle, hsum, hdate⟩ :=
    exists_inMonths (yearOfDayNumber n) 1 (by omega) hdays
  refine ⟨front, length, back, rest, hlengths, hrest, hle, ?_, hdate⟩
  rw [hsum]
  omega

/-- **A day number and back.** -/
theorem dayNumber_ofDayNumber (n : Int) : (ofDayNumber n).dayNumber = n := by
  obtain ⟨front, length, back, rest, hlengths, -, -, hsum, hdate⟩ := exists_ofDayNumber n
  have htake : (front ++ length :: back).take (1 + front.length - 1) = front := by
    rw [Nat.add_sub_cancel_left, List.take_left]
  rw [hdate, dayNumber, dayOfYear]
  dsimp only
  rw [hlengths, htake, hsum]

theorem isValid_ofDayNumber_iff (n : Int) :
    (ofDayNumber n).isValid = true ↔ minYear ≤ yearOfDayNumber n ∧ yearOfDayNumber n ≤ maxYear := by
  obtain ⟨front, length, back, rest, hlengths, hrest, hle, -, hdate⟩ := exists_ofDayNumber n
  have hmonth : monthLength (yearOfDayNumber n) (1 + front.length) = length := by
    rw [monthLength, if_neg (by omega), hlengths, Nat.add_sub_cancel_left, List.getElem?_append_right (Nat.le_refl _),
      Nat.sub_self]
    rfl
  rw [hdate, isValid]
  dsimp only
  rw [hmonth]
  simp only [Bool.and_eq_true, decide_eq_true_eq]
  exact ⟨fun h => h.1.1, fun h => ⟨⟨h, hrest⟩, hle⟩⟩

end Date

/-- **Which Unix times have a timestamp**: those of the years that a date may have. -/
theorem Timestamp.inRange_iff (seconds : Int) :
    inRange seconds = true ↔ -8334601228800 ≤ seconds ∧ seconds < 8210266876800 := by
  have hfirst : daysBeforeYear Date.minYear = -95746130 := rfl
  have hlast : daysBeforeYear (Date.maxYear + 1) = 95745399 := rfl
  have hyear : Date.yearOfDayNumber (seconds / 86400 + epochDay) ≤ Date.maxYear ↔
      ¬ Date.maxYear + 1 ≤ Date.yearOfDayNumber (seconds / 86400 + epochDay) := by
    rw [Int.add_one_le_iff, Int.not_lt]
  rw [inRange, dateAt, Date.isValid_ofDayNumber_iff, hyear, Date.le_yearOfDayNumber_iff, Date.le_yearOfDayNumber_iff,
    hfirst, hlast, epochDay]
  omega

end LegibleLog.Time
