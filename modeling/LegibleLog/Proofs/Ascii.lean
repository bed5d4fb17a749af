import LegibleLog.Proofs.Cuts
import LegibleLog.Text.Blank
import LegibleLog.Text.Hex
import LegibleLog.Text.Utf8
import Mathlib.Data.List.Basic

/-!
# ASCII characters in bytes

In UTF-8 the byte of an ASCII character stands for nothing but this character, so that a text can be taken apart where
its bytes can.

* `Text.encodeChars cs` — the bytes of characters, and `Text.decode?_eq_some_iff` for the texts of bytes;
* `Text.encode_injective`, `Text.encode_append`, `Text.length_encode` — the bytes of texts;
* `Text.toUInt8_mem_utf8EncodeChar_iff` — the byte of an ASCII character, in the bytes of any character;
* `Text.exists_split` — a text whose bytes have such a byte has the character there.
-/

namespace LegibleLog

namespace Text

/-- The bytes of characters. -/
def encodeChars (cs : List Char) : List UInt8 := cs.flatMap String.utf8EncodeChar

theorem encode_eq (s : String) : encode s = encodeChars s.toList := by
  unfold encode encodeChars
  rw [String.toUTF8_eq_toByteArray, ← String.utf8Encode_toList, List.utf8Encode, List.data_toByteArray]

theorem decode?_eq_some_iff {bytes : List UInt8} {s : String} :
    decode? bytes = some s ↔ encodeChars s.toList = bytes := by
  rw [← encode_eq]
  constructor
  · exact encode_of_decode?
  · rintro rfl
    exact decode?_encode s

theorem encodeChars_injective {cs ds : List Char} (h : encodeChars cs = encodeChars ds) : cs = ds := by
  have hcs := decode?_eq_some_iff.mpr (congrArg encodeChars (String.toList_ofList (l := cs)))
  have hds := decode?_eq_some_iff.mpr (congrArg encodeChars (String.toList_ofList (l := ds)))
  rw [h, hds] at hcs
  exact (String.ofList_injective (Option.some.inj hcs)).symm

theorem encode_injective {s t : String} (h : encode s = encode t) : s = t := by
  rw [encode_eq, encode_eq] at h
  exact String.toList_injective (encodeChars_injective h)

@[simp]
theorem encode_append (s t : String) : encode (s ++ t) = encode s ++ encode t := by
  rw [encode_eq, encode_eq, encode_eq, String.toList_append, encodeChars, List.flatMap_append]
  rfl

@[simp]
theorem length_encode (s : String) : (encode s).length = s.utf8ByteSize := by
  unfold encode
  rw [Array.length_toList]
  exact String.size_toByteArray

/-! ### One character -/

variable {a c : Char}

theorem utf8EncodeChar_of_ascii (ha : a.toNat < 0x80) : String.utf8EncodeChar a = [a.toUInt8] := by
  have hval : a.val.toNat ≤ 0x7F := Nat.le_of_lt_succ ha
  simp only [String.utf8EncodeChar, if_pos hval]
  rfl

theorem toNat_toUInt8 (ha : a.toNat < 0x80) : a.toUInt8.toNat = a.toNat := by
  rw [Char.toUInt8, UInt32.toNat_toUInt8]
  exact Nat.mod_eq_of_lt (Nat.lt_trans ha (by decide))

/-- Among the characters in UTF-8, only an ASCII character itself has its byte. -/
theorem toUInt8_mem_utf8EncodeChar_iff (ha : a.toNat < 0x80) : a.toUInt8 ∈ String.utf8EncodeChar c ↔ c = a := by
  have hnat := toNat_toUInt8 ha
  have hbyte : ∀ n, n < 256 → (a.toUInt8 = UInt8.ofNat n ↔ n = a.toNat) := by
    intro n hn
    rw [← UInt8.toNat_inj, UInt8.toNat_ofNat_of_lt' hn, hnat]
    exact eq_comm
  have hchar : c = a ↔ c.val.toNat = a.toNat := by
    rw [Char.ext_iff, ← UInt32.toNat_inj]
    rfl
  rw [hchar]
  fun_cases String.utf8EncodeChar c with
  | case1 v hv => rw [List.mem_singleton, hbyte v (by omega)]
  | case2 v _ hv =>
    rw [List.mem_pair, hbyte _ (by omega), hbyte _ (by omega)]
    omega
  | case3 v _ _ hv =>
    rw [List.mem_cons, List.mem_pair, hbyte _ (by omega), hbyte _ (by omega), hbyte _ (by omega)]
    omega
  | case4 v _ _ hv =>
    rw [List.mem_cons, List.mem_cons, List.mem_pair, hbyte _ (by omega), hbyte _ (by omega), hbyte _ (by omega),
      hbyte _ (by omega)]
    omega

/-! ### One byte -/

/-- What holds of the first 256 numbers holds of all bytes. -/
theorem forall_byte {p : UInt8 → Prop} (h : ∀ n < 256, p (UInt8.ofNat n)) (b : UInt8) : p b := by
  rw [← UInt8.ofNat_toNat (x := b)]
  exact h _ b.toNat_lt

theorem toUInt8_ofUInt8 : ∀ b : UInt8, (Char.ofUInt8 b).toUInt8 = b := forall_byte (by decide +kernel)

theorem toNat_ofUInt8 : ∀ b : UInt8, (Char.ofUInt8 b).toNat = b.toNat := forall_byte (by decide +kernel)

/-- The blanks among the bytes are blank characters in ASCII. -/
theorem isBlank_ofUInt8 : ∀ b : UInt8, isAsciiBlank b = true →
    (Char.ofUInt8 b).toNat < 0x80 ∧ isBlank (Char.ofUInt8 b) = true := forall_byte (by decide +kernel)

theorem isAsciiBlank_of_visible : ∀ b : UInt8, 0x20 < b.toNat → isAsciiBlank b = false :=
  forall_byte (by decide +kernel)

/-! ### Visible characters -/

/-- A visible ASCII character is not blank. -/
theorem isBlank_of_visible (h : 0x20 < c.toNat) (hc : c.toNat < 0x80) : isBlank c = false := by
  have hval : ∀ n : UInt32, c.val = n ↔ c.toNat = n.toNat := fun n => UInt32.toNat_inj.symm
  have hle : ∀ n : UInt32, n ≤ c.val ↔ n.toNat ≤ c.toNat := fun n => UInt32.le_iff_toNat_le
  have hge : ∀ n : UInt32, c.val ≤ n ↔ c.toNat ≤ n.toNat := fun n => UInt32.le_iff_toNat_le
  simp only [isBlank, Bool.or_eq_false_iff, Bool.and_eq_false_iff, beq_eq_false_iff_ne, ne_eq, decide_eq_false_iff_not,
    hval, hle, hge, UInt32.reduceToNat]
  omega

theorem toNat_of_isDigit (h : c.isDigit = true) : 0x30 ≤ c.toNat ∧ c.toNat ≤ 0x39 := by
  simp only [Char.isDigit, Bool.and_eq_true, decide_eq_true_eq] at h
  exact ⟨UInt32.le_iff_toNat_le.mp h.1, UInt32.le_iff_toNat_le.mp h.2⟩

theorem visible_of_hexValue? {n : Nat} (h : hexValue? c = some n) : 0x20 < c.toNat ∧ c.toNat < 0x80 := by
  have hbetween : ∀ lo hi : Char, 0x20 < lo.toNat → hi.toNat < 0x80 → lo ≤ c ∧ c ≤ hi →
      0x20 < c.toNat ∧ c.toNat < 0x80 :=
    fun lo hi hlo hhi hc => ⟨Nat.lt_of_lt_of_le hlo hc.1, Nat.lt_of_le_of_lt hc.2 hhi⟩
  unfold hexValue? at h
  split at h
  · next hc => exact hbetween '0' '9' (by decide) (by decide) hc
  · split at h
    · next hc => exact hbetween 'a' 'f' (by decide) (by decide) hc
    · split at h
      · next hc => exact hbetween 'A' 'F' (by decide) (by decide) hc
      · cases h

/-! ### Texts -/

theorem toUInt8_mem_encodeChars_iff (ha : a.toNat < 0x80) {cs : List Char} : a.toUInt8 ∈ encodeChars cs ↔ a ∈ cs := by
  rw [encodeChars, List.mem_flatMap]
  constructor
  · rintro ⟨c, hc, hbyte⟩
    rwa [(toUInt8_mem_utf8EncodeChar_iff ha).mp hbyte] at hc
  · intro h
    exact ⟨a, h, (toUInt8_mem_utf8EncodeChar_iff ha).mpr rfl⟩

/-- A text is cut where its bytes are, at an ASCII character. -/
theorem exists_split (ha : a.toNat < 0x80) {cs : List Char} {before after : List UInt8}
    (h : encodeChars cs = before ++ a.toUInt8 :: after) :
    ∃ l r, cs = l ++ a :: r ∧ encodeChars l = before ∧ encodeChars r = after := by
  induction cs generalizing before with
  | nil => exact absurd h.symm (List.append_ne_nil_of_right_ne_nil _ (List.cons_ne_nil _ _))
  | cons c cs ih =>
    rw [encodeChars, List.flatMap_cons, ← encodeChars] at h
    by_cases hc : c = a
    · subst hc
      rw [utf8EncodeChar_of_ascii ha, List.singleton_append] at h
      cases before with
      | nil => exact ⟨[], cs, rfl, rfl, (List.cons.inj h).2⟩
      | cons b before =>
        obtain ⟨rfl, hrest⟩ := List.cons.inj h
        obtain ⟨l, r, rfl, rfl, rfl⟩ := ih hrest
        exact ⟨c :: l, r, rfl, by rw [encodeChars, List.flatMap_cons, utf8EncodeChar_of_ascii ha]; rfl, rfl⟩
    · obtain ⟨more, rfl, hrest⟩ := cut_behind (mt (toUInt8_mem_utf8EncodeChar_iff ha).mp hc) h
      obtain ⟨l, r, rfl, rfl, rfl⟩ := ih hrest
      exact ⟨c :: l, r, rfl, rfl, rfl⟩

@[simp]
theorem encodeChars_append (cs ds : List Char) : encodeChars (cs ++ ds) = encodeChars cs ++ encodeChars ds :=
  List.flatMap_append

theorem encodeChars_cons (ha : a.toNat < 0x80) (cs : List Char) : encodeChars (a :: cs) = a.toUInt8 :: encodeChars cs := by
  rw [encodeChars, List.flatMap_cons, utf8EncodeChar_of_ascii ha]
  rfl

/-- In ASCII, a character is a byte. -/
theorem encodeChars_of_ascii {cs : List Char} (h : ∀ c ∈ cs, c.toNat < 0x80) : encodeChars cs = cs.map Char.toUInt8 := by
  induction cs with
  | nil => rfl
  | cons c cs ih =>
    obtain ⟨hc, hcs⟩ := List.forall_mem_cons.mp h
    rw [encodeChars_cons hc, ih hcs, List.map_cons]

/-- A character has one byte at least. -/
theorem length_le_length_encodeChars (cs : List Char) : cs.length ≤ (encodeChars cs).length := by
  induction cs with
  | nil => exact Nat.le_refl 0
  | cons c cs ih =>
    have hsize : 0 < c.utf8Size := c.utf8Size_pos
    rw [encodeChars, List.flatMap_cons, ← encodeChars, List.length_append, List.length_cons,
      String.length_utf8EncodeChar]
    omega

@[simp]
theorem encodeChars_eq_nil_iff {cs : List Char} : encodeChars cs = [] ↔ cs = [] := by
  constructor
  · intro h
    have hnil : encodeChars cs = encodeChars [] := h
    exact encodeChars_injective hnil
  · rintro rfl
    rfl

theorem exists_cons_of_encodeChars (ha : a.toNat < 0x80) {cs : List Char} {after : List UInt8}
    (h : encodeChars cs = a.toUInt8 :: after) : ∃ r, cs = a :: r ∧ encodeChars r = after := by
  have hsplit : encodeChars cs = [] ++ a.toUInt8 :: after := h
  obtain ⟨l, r, rfl, hl, hr⟩ := exists_split ha hsplit
  rw [encodeChars_eq_nil_iff.mp hl]
  exact ⟨r, rfl, hr⟩

end Text

end LegibleLog
