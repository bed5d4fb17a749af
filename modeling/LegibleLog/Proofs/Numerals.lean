import LegibleLog.Json.Text
import LegibleLog.Proofs.Cuts
import LegibleLog.Proofs.Rounding

/-!
# Written integers

* `Numeral` — digits with an optional sign; `Numeral.ofInt n` is the one that `toString n` writes;
* `Numeral.toBinary64?_parse?` — as a decimal numeral it stands for the double nearest to its value;
* `Json.readNumber?_toString_append` — in a JSON text it is read as the integer itself, as far as 64 bits hold it.
-/

namespace LegibleLog

/-! ### Digits -/

theorem natAfter_eq (n : Nat) (ds : List Char) : natAfter n ds = Nat.ofDigitChars 10 ds n := by
  rw [Nat.ofDigitChars_eq_foldl]
  rfl

theorem natOfDigits_toDigits (n : Nat) : natOfDigits (Nat.toDigits 10 n) = n := by
  rw [natOfDigits, natAfter_eq, Nat.ofDigitChars_ten_toDigits]

/-- Zeros in front do not count. -/
theorem natOfDigits_dropWhile_zero (ds : List Char) : natOfDigits (ds.dropWhile (· == '0')) = natOfDigits ds := by
  induction ds with
  | nil => rfl
  | cons c ds ih =>
    by_cases hc : c = '0'
    · subst hc
      have hzero : natOfDigits ('0' :: ds) = natOfDigits ds := by
        rw [natOfDigits, natAfter_cons]
        rfl
      have hdrop : ('0' :: ds).dropWhile (· == '0') = ds.dropWhile (· == '0') := List.dropWhile_cons_of_pos rfl
      rw [hdrop, ih, hzero]
    · rw [List.dropWhile_cons_of_neg (by rwa [beq_iff_eq])]

/-- No zero is written in front of other digits. -/
theorem head?_toDigits {n : Nat} (h : n ≠ 0) : (Nat.toDigits 10 n).head? ≠ some '0' := by
  induction n using Nat.strongRecOn with
  | ind n ih =>
    by_cases hlt : n < 10
    · have hdigit : ∀ m < 10, m ≠ 0 → [Nat.digitChar m].head? ≠ some '0' := by decide
      rw [Nat.toDigits_of_lt_base hlt]
      exact hdigit n hlt h
    · have hle : 10 ≤ n := Nat.le_of_not_lt hlt
      have hfirst : (Nat.toDigits 10 (n / 10)).head? ≠ some '0' := ih (n / 10) (by omega) (by omega)
      obtain ⟨c, r, hcr⟩ := List.exists_cons_of_ne_nil (Nat.toDigits_ne_nil : Nat.toDigits 10 (n / 10) ≠ [])
      rw [Nat.toDigits_of_base_le (by decide) hle]
      rw [hcr] at hfirst ⊢
      exact hfirst

/-! ### Numerals -/

/-- What may stand before digits. -/
inductive Sign where
  | absent
  | plus
  | minus
deriving Repr, DecidableEq

/-- The sign as it is written. -/
def Sign.chars : Sign → List Char
  | absent => []
  | plus => ['+']
  | minus => ['-']

/-- Digits with an optional sign. -/
structure Numeral where
  sign : Sign
  digits : List Char
  digits_ne_nil : digits ≠ []
  isDigit_of_mem : ∀ c ∈ digits, c.isDigit = true

theorem Decimal.toBinary64?_of_exponent {d : Decimal} (hexponent : d.exponent = 0)
    {k : Nat} (hk : k ≤ 1024) (hlt : 2 * |d.toRat| < 2 ^ k) : d.toBinary64? = some (Binary64.nearest d.toRat) := by
  unfold Decimal.toBinary64?
  by_cases hzero : d.digits = 0
  · have hvalue : d.toRat = 0 := by
      simp [Decimal.toRat, hzero]
    rw [if_pos (by simp [hzero]), hvalue]
    rfl
  · have hlow : ¬ d.exponent < -400 - (d.digits.log2 : Int) := by omega
    have hhigh : ¬ 400 < d.exponent := by omega
    rw [if_neg (by simp [hzero, hlow]), if_neg hhigh]
    exact Binary64.nearest?_of_abs_lt hk hlt

namespace Numeral

/-- The numeral as it is written. -/
def chars (s : Numeral) : List Char := s.sign.chars ++ s.digits

/-- The integer that the numeral stands for. -/
def value (s : Numeral) : Int := if s.sign = .minus then -(natOfDigits s.digits : Int) else natOfDigits s.digits

/-- The numeral of an integer. -/
def ofInt (n : Int) : Numeral where
  sign := if 0 ≤ n then .absent else .minus
  digits := Nat.toDigits 10 n.natAbs
  digits_ne_nil := Nat.toDigits_ne_nil
  isDigit_of_mem := fun _ => Nat.isDigit_of_mem_toDigits (by decide) (by decide)

theorem chars_ofInt (n : Int) : (ofInt n).chars = (toString n).toList := by
  rw [Int.toString_eq_repr, Int.repr_eq_if]
  show (if 0 ≤ n then Sign.absent else Sign.minus).chars ++ Nat.toDigits 10 n.natAbs = _
  by_cases h : 0 ≤ n
  · have hnat : n.toNat = n.natAbs := by omega
    rw [if_pos h, if_pos h, Nat.toList_repr, hnat]
    rfl
  · have hnat : (-n).toNat = n.natAbs := by omega
    rw [if_neg h, if_neg h, String.toList_append, Nat.toList_repr, hnat]
    rfl

theorem value_ofInt (n : Int) : (ofInt n).value = n := by
  show (if (if 0 ≤ n then Sign.absent else Sign.minus) = Sign.minus then
    -(natOfDigits (Nat.toDigits 10 n.natAbs) : Int) else natOfDigits (Nat.toDigits 10 n.natAbs)) = n
  rw [natOfDigits_toDigits]
  by_cases h : 0 ≤ n
  · rw [if_pos h, if_neg (by decide)]
    omega
  · rw [if_neg h, if_pos rfl]
    omega

theorem exists_cons_digits (s : Numeral) : ∃ d ds, s.digits = d :: ds ∧ d.isDigit = true := by
  obtain ⟨d, ds, hd⟩ := List.exists_cons_of_ne_nil s.digits_ne_nil
  exact ⟨d, ds, hd, s.isDigit_of_mem d (hd ▸ List.mem_cons_self)⟩

/-- A plus sign is not written, so that a digit or a minus sign comes first. -/
theorem sign_ofInt_ne_plus (n : Int) : (ofInt n).sign ≠ .plus := by
  show (if 0 ≤ n then Sign.absent else Sign.minus) ≠ .plus
  split <;> decide

theorem exists_cons_chars (s : Numeral) (h : s.sign ≠ .plus) :
    ∃ c r, s.chars = c :: r ∧ (c.isDigit = true ∨ c = '-') := by
  obtain ⟨d, ds, hds, hd⟩ := s.exists_cons_digits
  rw [chars, hds]
  cases hs : s.sign with
  | absent => exact ⟨d, ds, rfl, .inl hd⟩
  | plus => exact absurd hs h
  | minus => exact ⟨'-', d :: ds, rfl, .inr rfl⟩

/-! #### As decimal numerals -/

theorem splitSign_chars (s : Numeral) : Decimal.splitSign s.chars = (decide (s.sign = .minus), s.digits) := by
  obtain ⟨d, ds, hds, hd⟩ := s.exists_cons_digits
  rw [chars]
  cases s.sign with
  | absent =>
    rw [Sign.chars, List.nil_append, hds]
    unfold Decimal.splitSign
    split
    · next h =>
      obtain ⟨rfl, -⟩ := List.cons.inj h
      cases hd
    · next h =>
      obtain ⟨rfl, -⟩ := List.cons.inj h
      cases hd
    · rfl
  | plus => rfl
  | minus => rfl

/-- Up to 800 digits are all kept. -/
theorem parse?_chars (s : Numeral) (h : s.digits.length ≤ 800) :
    Decimal.parse? s.chars = some ⟨decide (s.sign = .minus), natOfDigits s.digits, 0⟩ := by
  have htake : s.digits.takeWhile Char.isDigit = s.digits := List.takeWhile_eq_self_iff.mpr s.isDigit_of_mem
  have hdrop : s.digits.dropWhile Char.isDigit = [] := List.dropWhile_eq_nil_iff.mpr s.isDigit_of_mem
  have hne : s.digits.isEmpty = false := List.isEmpty_eq_false_iff.mpr s.digits_ne_nil
  have hkept : (s.digits.dropWhile (· == '0')).length ≤ 800 :=
    (List.dropWhile_sublist _).length_le.trans h
  have hdigits (negative : Bool) : Decimal.ofDigits negative s.digits 0 = ⟨negative, natOfDigits s.digits, 0⟩ := by
    unfold Decimal.ofDigits
    dsimp only
    rw [List.take_of_length_le hkept, List.drop_of_length_le hkept, natOfDigits_dropWhile_zero]
    rfl
  unfold Decimal.parse?
  simp [splitSign_chars, htake, hdrop, hne, Decimal.parseExponent?, hdigits]

theorem toRat_digits (s : Numeral) :
    (⟨decide (s.sign = .minus), natOfDigits s.digits, 0⟩ : Decimal).toRat = s.value := by
  unfold Decimal.toRat value
  by_cases h : s.sign = .minus
  · simp [h]
  · simp [h]

/-- **The double of an integer** is what its digits stand for. -/
theorem toBinary64?_parse?_toString {n : Int} (h : n.natAbs < 2 ^ 65) :
    (Decimal.parse? (toString n).toList).bind Decimal.toBinary64? = some (Binary64.nearest n) := by
  have hlength : (ofInt n).digits.length ≤ 800 := by
    have hpower : n.natAbs < 10 ^ 20 := by omega
    have htwenty : (ofInt n).digits.length ≤ 20 := (Nat.length_toDigits_le_iff (by decide) (by decide)).mpr hpower
    omega
  have hvalue := toRat_digits (ofInt n)
  rw [value_ofInt] at hvalue
  have hfinite : 2 * |(n : Rat)| < 2 ^ 66 := by
    have hdouble : 2 * n.natAbs < 2 ^ 66 := by omega
    rw [← Int.cast_abs, ← Nat.cast_natAbs]
    exact_mod_cast hdouble
  rw [← hvalue] at hfinite ⊢
  rw [← chars_ofInt, parse?_chars _ hlength, Option.bind_some]
  exact Decimal.toBinary64?_of_exponent rfl (by decide) hfinite

end Numeral

/-! ### In JSON texts -/

namespace Json

/-- What does not go on with a number. -/
def EndsNumber (rest : List Char) : Prop := ∀ c ∈ rest.head?, c.isDigit = false ∧ c ≠ '.' ∧ c ≠ 'e' ∧ c ≠ 'E'

theorem gather_eq {n : Nat} {ds : List Char} (h : natAfter n ds < UInt64.size) : gather n ds = (natAfter n ds, []) := by
  induction ds generalizing n with
  | nil => rfl
  | cons d ds ih =>
    rw [natAfter_cons] at h ⊢
    have hnext : 10 * n + digitValue d < UInt64.size := Nat.lt_of_le_of_lt (le_natAfter _ ds) h
    rw [gather, if_pos hnext, ih h]

theorem readWhole?_append {ds rest : List Char} (hne : ds ≠ []) (hds : ∀ c ∈ ds, c.isDigit = true)
    (hzero : ds.head? = some '0' → ds = ['0']) (hrest : ∀ c ∈ rest.head?, c.isDigit = false) :
    readWhole? (ds ++ rest) = some (ds, rest) := by
  obtain ⟨htake, hdrop⟩ := takeWhile_append_eq hds hrest
  obtain ⟨d, more, rfl⟩ := List.exists_cons_of_ne_nil hne
  unfold readWhole?
  split
  · next c r h =>
    -- a zero is the only digit
    obtain ⟨rfl, hmore⟩ := List.cons.inj h
    obtain ⟨-, rfl⟩ := List.cons.inj (hzero rfl)
    obtain rfl : rest = c :: r := hmore
    have hc : c.isDigit = false := hrest c rfl
    rw [if_neg (by rw [hc]; exact Bool.false_ne_true)]
  · dsimp only
    rw [htake, hdrop]
    rfl

theorem readParts?_append (s : Numeral) (hsign : s.sign ≠ .plus) (hzero : s.digits.head? = some '0' → s.digits = ['0'])
    {rest : List Char} (hrest : EndsNumber rest) :
    readParts? (s.chars ++ rest) = some (⟨decide (s.sign = .minus), s.digits, [], none⟩, rest) := by
  have hminus : splitMinus (s.chars ++ rest) = (decide (s.sign = .minus), s.digits ++ rest) := by
    rw [Numeral.chars, List.append_assoc]
    cases hs : s.sign with
    | absent =>
      obtain ⟨d, ds, hds, hd⟩ := s.exists_cons_digits
      rw [Sign.chars, List.nil_append, hds, List.cons_append]
      unfold splitMinus
      split
      · next r h =>
        obtain ⟨rfl, -⟩ := List.cons.inj h
        cases hd
      · rfl
    | plus => exact absurd hs hsign
    | minus => rfl
  have hwhole : readWhole? (s.digits ++ rest) = some (s.digits, rest) :=
    readWhole?_append s.digits_ne_nil s.isDigit_of_mem hzero fun c hc => (hrest c hc).1
  have hdecimals : readDecimals? rest = some ([], rest) := by
    unfold readDecimals?
    split
    · exact absurd rfl (hrest '.' rfl).2.1
    · rfl
  have hpower : readPower? rest = some (none, rest) := by
    unfold readPower?
    split
    · next c r =>
      obtain ⟨-, -, he, hE⟩ := hrest c rfl
      rw [if_neg (by simp [he, hE])]
    · rfl
  rw [readParts?, hminus]
  simp only [hwhole, hdecimals, hpower, Option.bind_eq_bind, Option.bind_some, Option.pure_def]

/-- The bounds are those of the integers of 64 bits, with a sign or without. -/
theorem toScalar?_ofInt {n : Int} (hlow : -2 ^ 63 ≤ n) (hhigh : n < 2 ^ 64) :
    NumberParts.toScalar? ⟨decide ((Numeral.ofInt n).sign = .minus), (Numeral.ofInt n).digits, [], none⟩ =
      some (.integer n) := by
  have hvalue : natAfter 0 (Nat.toDigits 10 n.natAbs) = n.natAbs := natOfDigits_toDigits n.natAbs
  have hsize : natAfter 0 (Nat.toDigits 10 n.natAbs) < UInt64.size := by
    rw [hvalue, UInt64.size]
    omega
  have hgather : gather 0 (Numeral.ofInt n).digits = (n.natAbs, []) := by
    show gather 0 (Nat.toDigits 10 n.natAbs) = _
    rw [gather_eq hsize, hvalue]
  have hsign : (Numeral.ofInt n).sign = if 0 ≤ n then .absent else .minus := rfl
  unfold NumberParts.toScalar?
  simp only [List.isEmpty_nil, Option.isNone_none, Bool.and_self, if_true, hgather, hsign]
  by_cases h : 0 ≤ n
  · have hnat : (n.natAbs : Int) = n := by omega
    rw [if_pos h]
    show some (Scalar.integer n.natAbs) = some (.integer n)
    rw [hnat]
  · have hnat : -(n.natAbs : Int) = n := by omega
    rw [if_neg h]
    show (if n.natAbs ≠ 0 ∧ n.natAbs ≤ 0x8000_0000_0000_0000 then some (Scalar.integer (-n.natAbs)) else _) = _
    rw [if_pos (by omega), hnat]

/-- **An integer that 64 bits hold**, with a sign or without, is read as itself. -/
theorem readNumber?_toString_append {n : Int} (hlow : -2 ^ 63 ≤ n) (hhigh : n < 2 ^ 64) {rest : List Char}
    (hrest : EndsNumber rest) : readNumber? ((toString n).toList ++ rest) = some (.integer n, rest) := by
  have hzero : (Numeral.ofInt n).digits.head? = some '0' → (Numeral.ofInt n).digits = ['0'] := by
    show (Nat.toDigits 10 n.natAbs).head? = some '0' → Nat.toDigits 10 n.natAbs = ['0']
    intro h
    by_cases hn : n.natAbs = 0
    · rw [hn, Nat.toDigits_zero]
    · exact absurd h (head?_toDigits hn)
  rw [← Numeral.chars_ofInt, readNumber?, readParts?_append _ (Numeral.sign_ofInt_ne_plus n) hzero hrest]
  dsimp only
  rw [toScalar?_ofInt hlow hhigh]
  rfl

/-- A word that begins with a digit or a minus sign is a number. -/
theorem read?_of_number {c : Char} {r : List Char} (hc : c.isDigit = true ∨ c = '-') :
    Token.read? (c :: r) = (readNumber? (c :: r)).map fun (s, r) => (.scalar s, r) := by
  unfold Token.read?
  split
  -- any other word begins with a character that is neither a digit nor a minus sign
  all_goals
    first
    | rfl
    | next h =>
      obtain ⟨rfl, -⟩ := List.cons.inj h
      exact absurd hc (by decide)

theorem read?_toString_append {n : Int} (hlow : -2 ^ 63 ≤ n) (hhigh : n < 2 ^ 64) {rest : List Char}
    (hrest : EndsNumber rest) : Token.read? ((toString n).toList ++ rest) = some (.scalar (.integer n), rest) := by
  have hnumber := readNumber?_toString_append hlow hhigh hrest
  obtain ⟨c, r, hcr, hc⟩ := (Numeral.ofInt n).exists_cons_chars (Numeral.sign_ofInt_ne_plus n)
  rw [← Numeral.chars_ofInt, hcr, List.cons_append] at hnumber ⊢
  rw [read?_of_number hc, hnumber]
  rfl

end Json

end LegibleLog
