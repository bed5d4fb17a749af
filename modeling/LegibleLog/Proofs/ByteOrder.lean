import LegibleLog.ByKey
import LegibleLog.Proofs.Ascii

/-!
# Texts in the order of their bytes

The order of texts by code points is the order of their bytes in UTF-8: the first byte of a longer encoding is greater,
and of two encodings of the same length the greater character has the greater byte at the first place where they
differ.

* `Text.utf8EncodeChar_append_lt` — two characters, whatever follows them;
* `Text.compare_eq_lt_iff` — two texts.
-/

namespace LegibleLog

namespace Text

/-! ### Characters -/

theorem ofNat_cons_lt_iff {m n : Nat} (hm : m < 256) (hn : n < 256) {xs ys : List UInt8} :
    UInt8.ofNat m :: xs < UInt8.ofNat n :: ys ↔ m < n ∨ m = n ∧ xs < ys := by
  rw [List.cons_lt_cons_iff, UInt8.lt_iff_toNat_lt, ← UInt8.toNat_inj, UInt8.toNat_ofNat_of_lt' hm,
    UInt8.toNat_ofNat_of_lt' hn]

/-- Of two numbers, the greater one has the greater digit in front, or it is greater behind this digit. -/
theorem digit_lt_or {v w k : Nat} (h : v % (k * 64) < w % (k * 64)) :
    v / k % 64 < w / k % 64 ∨ v / k % 64 = w / k % 64 ∧ v % k < w % k := by
  have hle : v % (k * 64) / k ≤ w % (k * 64) / k := Nat.div_le_div_right h.le
  have hv := Nat.div_add_mod (v % (k * 64)) k
  have hw := Nat.div_add_mod (w % (k * 64)) k
  rw [Nat.mod_mul_right_div_self, Nat.mod_mul_right_div_self] at hle
  rw [Nat.mod_mul_right_mod, Nat.mod_mul_right_div_self] at hv hw
  obtain hlt | heq := hle.lt_or_eq
  · exact Or.inl hlt
  · rw [heq] at hv
    exact Or.inr ⟨heq, by omega⟩

/-- **The order of characters** is that of their bytes, which differ before one of them ends. -/
theorem utf8EncodeChar_append_lt {c d : Char} (h : c < d) (rest rest' : List UInt8) :
    String.utf8EncodeChar c ++ rest < String.utf8EncodeChar d ++ rest' := by
  have hlt : c.val.toNat < d.val.toNat := h
  have hd : d.val.toNat < 0x110000 := by
    rcases d.valid with hvalid | hvalid <;> omega
  fun_cases String.utf8EncodeChar c <;> fun_cases String.utf8EncodeChar d <;>
    simp (disch := omega) only [List.cons_append, List.nil_append, ofNat_cons_lt_iff]
  case case4.case4 v _ _ _ w _ _ _ =>
    obtain hfirst | ⟨hfirst, hrest⟩ : v / 262144 % 8 < w / 262144 % 8 ∨
        v / 262144 % 8 = w / 262144 % 8 ∧ v % 262144 < w % 262144 := by omega
    · exact Or.inl (by omega)
    · obtain hsecond | ⟨hsecond, hrest⟩ := digit_lt_or (k := 4096) hrest
      · omega
      · have hthird := digit_lt_or (k := 64) hrest
        omega
  all_goals omega

/-! ### Texts -/

theorem encodeChars_lt_of_lt {cs ds : List Char} (h : cs < ds) : encodeChars cs < encodeChars ds := by
  induction cs generalizing ds with
  | nil =>
    cases ds with
    | nil => exact absurd h (List.lt_irrefl _)
    | cons d ds =>
      cases hbytes : encodeChars (d :: ds) with
      | nil => exact absurd (encodeChars_eq_nil_iff.mp hbytes) (List.cons_ne_nil d ds)
      | cons b bytes => exact List.nil_lt_cons b bytes
  | cons c cs ih =>
    cases ds with
    | nil => exact absurd h (List.not_lt_nil _)
    | cons d ds =>
      unfold encodeChars
      rw [List.flatMap_cons, List.flatMap_cons]
      obtain hfirst | ⟨rfl, hrest⟩ := List.cons_lt_cons_iff.mp h
      · exact utf8EncodeChar_append_lt hfirst _ _
      · exact List.append_left_lt (ih hrest)

theorem encode_lt_of_compare {s t : String} (h : compare s t = .lt) : encode s < encode t := by
  have hlt : s < t := compareOfLessAndEq_eq_lt.mp h
  rw [encode_eq, encode_eq]
  exact encodeChars_lt_of_lt hlt

/-- **The order of texts** is that of their bytes. -/
theorem compare_eq_lt_iff {s t : String} : compare s t = .lt ↔ encode s < encode t := by
  refine ⟨encode_lt_of_compare, fun h => ?_⟩
  cases hcompare : compare s t with
  | lt => rfl
  | eq =>
    obtain rfl := Std.LawfulEqCmp.eq_of_compare hcompare
    exact absurd h (List.lt_irrefl _)
  | gt => exact absurd (encode_lt_of_compare (Std.OrientedCmp.lt_of_gt hcompare)) (List.lt_asymm h)

end Text

end LegibleLog
