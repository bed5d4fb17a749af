import LegibleLog.Proofs.ConsoleStamps

/-!
# The form of the lines of container runtimes

* `Time.exists_numbers_of_rfc3339?` — the numbers of a time in the form of RFC 3339, which have their full width;
* `CriLine.looksStamped_of_rfc3339?` — so a line that begins with such a time passes the look at its first bytes;
* `CriLine.HasForm bytes cri` — the form of a line, and its parts;
* `CriLine.read_exact` — the reader finds the parts of just these lines, and it meets no place that a line does not have.
-/

namespace LegibleLog

open ZapLine (Digits afterMask?)

/-! ### Times -/

namespace Time

variable {cs rest : List Char} {n width : Nat} {t : Timestamp}

theorem exists_digits_of_fixed (h : readDigits? width width cs = some (n, rest)) :
    ∃ d : Digits width, cs = d.chars ++ rest := by
  obtain ⟨ds, hcs, hdigits, hleast, hmost⟩ := exists_digits_of_readDigits? h
  exact ⟨⟨ds, Nat.le_antisymm hmost hleast, hdigits⟩, hcs⟩

theorem eq_cons_of_readDateEnd? (h : readDateEnd? cs = some rest) : ∃ mark ∈ ['T', 't', ' '], cs = mark :: rest := by
  unfold readDateEnd? at h
  split at h
  all_goals first | cases h; exact ⟨_, by decide, rfl⟩ | cases h

/-- **The numbers of a time.** Behind the seconds, there is a zone at least. -/
theorem exists_numbers_of_rfc3339? (h : rfc3339? cs = some t) :
    ∃ (year : Digits 4) (month day hour minute second : Digits 2), ∃ mark ∈ ['T', 't', ' '], ∃ back ≠ [],
      cs = year.chars ++ '-' :: (month.chars ++ '-' :: (day.chars ++ mark :: (hour.chars ++ ':' :: (minute.chars ++
        ':' :: (second.chars ++ back))))) := by
  unfold rfc3339? at h
  split at h
  · next parts hread =>
    simp only [readTimestamp?, Option.bind_eq_bind, Option.bind_eq_some_iff, Option.pure_def, Option.some.injEq,
      Prod.mk.injEq, Prod.exists] at hread
    obtain ⟨_, _, hyear, _, hdash, _, _, hmonth, _, hdash', _, _, hday, _, hend, _, _, hhour, _, hcolon, _, _, hminute,
      _, hcolon', _, back, hsecond, _, _, hfraction, _, _, hzone, -, -⟩ := hread
    obtain ⟨year, rfl⟩ := exists_digits_of_fixed hyear
    obtain rfl := eq_cons_of_readChar? hdash
    obtain ⟨month, rfl⟩ := exists_digits_of_fixed hmonth
    obtain rfl := eq_cons_of_readChar? hdash'
    obtain ⟨day, rfl⟩ := exists_digits_of_fixed hday
    obtain ⟨mark, hmark, rfl⟩ := eq_cons_of_readDateEnd? hend
    obtain ⟨hour, rfl⟩ := exists_digits_of_fixed hhour
    obtain rfl := eq_cons_of_readChar? hcolon
    obtain ⟨minute, rfl⟩ := exists_digits_of_fixed hminute
    obtain rfl := eq_cons_of_readChar? hcolon'
    obtain ⟨second, rfl⟩ := exists_digits_of_fixed hsecond
    refine ⟨year, month, day, hour, minute, second, mark, hmark, back, ?_, rfl⟩
    -- of nothing, no fraction is taken, and no zone
    rintro rfl
    obtain ⟨taken, hnil, -⟩ := takes_fraction hfraction
    obtain ⟨-, rfl⟩ := List.append_eq_nil_iff.mp hnil.symm
    cases hzone
  · cases h

end Time

namespace ZapLine

variable {mask : List Char} {bytes rest : List UInt8}

theorem Digits.encodeChars_chars {width : Nat} (d : Digits width) :
    Text.encodeChars d.chars = d.chars.map Char.toUInt8 :=
  Text.encodeChars_of_ascii fun c hc => (d.isVisible_of_mem c hc).2

/-- A sign stands where the mask has it. -/
theorem getElem?_of_afterMask? (h : afterMask? mask bytes = some rest) {place : Nat} {c : Char}
    (hplace : mask[place]? = some c) (hc : c ≠ '0') : bytes[place]? = some c.toUInt8 := by
  fun_induction afterMask? mask bytes generalizing place with
  | case1 => cases hplace
  | case2 mask b r hb ih =>
    cases place with
    | zero => exact absurd (Option.some.inj hplace).symm hc
    | succ place => exact ih h hplace
  | case3 => cases h
  | case4 c' mask b r _ hb ih =>
    cases place with
    | zero =>
      obtain rfl := Option.some.inj hplace
      rw [List.getElem?_cons_zero, eq_of_beq hb]
    | succ place => exact ih h hplace
  | case5 => cases h
  | case6 => cases h

end ZapLine

/-! ### The look at the first bytes -/

namespace CriLine

variable {bytes : List UInt8} {cs : List Char} {t : Time.Timestamp}

/-- The digits and signs of a timestamp up to its seconds. -/
def mask : List Char := "0000-00-00T00:00:00".toList

/-- The numbers, the signs and a zone take twenty bytes at least. -/
theorem length_of_rfc3339? (h : Time.rfc3339? cs = some t) : 20 ≤ (Text.encodeChars cs).length := by
  apply Nat.le_trans _ (Text.length_le_length_encodeChars cs)
  obtain ⟨year, month, day, hour, minute, second, mark, -, back, hback, rfl⟩ := Time.exists_numbers_of_rfc3339? h
  have hpos : 0 < back.length := List.length_pos_iff.mpr hback
  simp only [List.length_append, List.length_cons, Digits.length_chars]
  omega

/-- **A time with a capital `T` follows the mask.** -/
theorem exists_afterMask?_of_rfc3339? (h : Time.rfc3339? cs = some t)
    (hcapital : (Text.encodeChars cs)[10]? = some 'T'.toUInt8) :
    ∃ rest, afterMask? mask (Text.encodeChars cs) = some rest := by
  obtain ⟨year, month, day, hour, minute, second, mark, hmark, back, -, rfl⟩ := Time.exists_numbers_of_rfc3339? h
  have hbytes : Text.encodeChars (year.chars ++ '-' :: (month.chars ++ '-' :: (day.chars ++ mark ::
      (hour.chars ++ ':' :: (minute.chars ++ ':' :: (second.chars ++ back)))))) =
      year.chars.map Char.toUInt8 ++ '-'.toUInt8 :: (month.chars.map Char.toUInt8 ++ '-'.toUInt8 ::
        (day.chars.map Char.toUInt8 ++ mark.toUInt8 :: (hour.chars.map Char.toUInt8 ++ ':'.toUInt8 ::
          (minute.chars.map Char.toUInt8 ++ ':'.toUInt8 :: (second.chars.map Char.toUInt8 ++
            Text.encodeChars back))))) := by
    have hascii : mark.toNat < 0x80 := by
      simp only [List.mem_cons, List.not_mem_nil, or_false] at hmark
      rcases hmark with rfl | rfl | rfl <;> decide
    have hhyphen : '-'.toNat < 0x80 := by decide
    have hcolon : ':'.toNat < 0x80 := by decide
    simp only [Text.encodeChars_append, Text.encodeChars_cons hhyphen, Text.encodeChars_cons hcolon,
      Text.encodeChars_cons hascii, Digits.encodeChars_chars]
  rw [hbytes] at hcapital ⊢
  -- four digits, a hyphen, two digits, a hyphen and two digits stand before the mark
  have hmark : mark.toUInt8 = 'T'.toUInt8 := by
    simpa [List.getElem?_append, Digits.length_chars] using hcapital
  have hmask : CriLine.mask = List.replicate 4 '0' ++ '-' :: (List.replicate 2 '0' ++ '-' ::
      (List.replicate 2 '0' ++ 'T' :: (List.replicate 2 '0' ++ ':' :: (List.replicate 2 '0' ++ ':' ::
        (List.replicate 2 '0' ++ []))))) := by decide
  have hsign : ('-' : Char) ≠ '0' := by decide
  have hletter : ('T' : Char) ≠ '0' := by decide
  have hcolon : (':' : Char) ≠ '0' := by decide
  refine ⟨Text.encodeChars back, ?_⟩
  simp only [hmask, ZapLine.afterMask?_digits, ZapLine.afterMask?_literal hsign, ZapLine.afterMask?_literal hletter,
    ZapLine.afterMask?_literal hcolon, hmark]
  exact ⟨year, _, rfl, _, rfl, month, _, rfl, _, rfl, day, _, rfl, _, rfl, hour, _, rfl, _, rfl,
    minute, _, rfl, _, rfl, second, _, rfl, rfl⟩

/-- **The look at the first bytes** lets such a time pass, and a space behind it. -/
theorem looksStamped_of_rfc3339? (h : Time.rfc3339? cs = some t)
    (hcapital : (Text.encodeChars cs)[10]? = some 'T'.toUInt8) (more : List UInt8) :
    LooksStamped (Text.encodeChars cs ++ ' '.toUInt8 :: more) := by
  obtain ⟨rest, hmask⟩ := exists_afterMask?_of_rfc3339? h hcapital
  have hlength : 20 ≤ (Text.encodeChars cs).length := length_of_rfc3339? h
  have hplace {place : Nat} (hlt : place < 20) :
      (Text.encodeChars cs ++ ' '.toUInt8 :: more)[place]? = (Text.encodeChars cs)[place]? :=
    List.getElem?_append_left (Nat.lt_of_lt_of_le hlt hlength)
  constructor
  · rw [List.length_append, List.length_cons, leastLength]
    omega
  · obtain ⟨-, -, d, r, rfl, hd⟩ := Time.timeChars_of_rfc3339? h
    have hascii : d.toNat < 0x80 := (ZapLine.isVisible_of_isDigit d hd).2
    refine ⟨d.toUInt8, ?_, ?_⟩
    · rw [hplace (by decide), Text.encodeChars_cons hascii, List.getElem?_cons_zero]
    · rwa [ZapLine.ofUInt8_toUInt8 (ZapLine.isVisible_of_isDigit d hd)]
  · have hsigns : ∀ p ∈ signs, p.1 < 20 ∧ mask[p.1]? = some p.2 ∧ p.2 ≠ '0' := by decide
    intro p hp
    obtain ⟨hlt, hsign, hne⟩ := hsigns p hp
    rw [hplace hlt]
    exact ZapLine.getElem?_of_afterMask? hmask hsign hne

end CriLine

/-! ### The form of a line -/

/-- What a line is to the runtime: whole, or a part of a longer one. -/
inductive LineTag where
  | full
  | part
deriving Repr, DecidableEq

/-- The letter of a tag. -/
def LineTag.letter : LineTag → UInt8
  | full => 'F'.toUInt8
  | part => 'P'.toUInt8

theorem ContainerStream.ofName?_eq_some_iff {name : List UInt8} {stream : ContainerStream} :
    ofName? name = some stream ↔ name = Text.encode stream.name := by
  have hnames : ([stdout, stderr].map fun stream => Text.encode stream.name).Nodup := by decide
  have hmem : stream ∈ [stdout, stderr] := by cases stream <;> simp
  simp only [ofName?, BEq.comm (a := name)]
  rw [find?_eq_some_iff_of_nodup hnames, and_iff_right hmem, eq_comm]

namespace CriLine

variable {bytes rest payload : List UInt8} {cri : CriLine}

/-- The payload in what stands behind the stream: one tag and its space are left out, if they come first. -/
def PayloadIn (rest payload : List UInt8) : Prop :=
  (∃ tag : LineTag, rest = tag.letter :: ' '.toUInt8 :: payload) ∨
    rest = payload ∧ ∀ (tag : LineTag) (more : List UInt8), rest ≠ tag.letter :: ' '.toUInt8 :: more

/-- **The form of a line**: a time in the form of RFC 3339, with a capital `T` and without a space, the name of a
stream, and the payload. -/
def HasForm (bytes : List UInt8) (cri : CriLine) : Prop :=
  ∃ (time : String) (rest : List UInt8),
    bytes = Text.encode time ++ ' '.toUInt8 :: (Text.encode cri.stream.name ++ ' '.toUInt8 :: rest) ∧
      ' '.toUInt8 ∉ Text.encode time ∧ Time.rfc3339? time.toList = some cri.timestamp ∧
      (Text.encode time)[10]? = some 'T'.toUInt8 ∧ PayloadIn rest cri.payload

theorem withoutTag_letter (tag : LineTag) (payload : List UInt8) :
    withoutTag (tag.letter :: ' '.toUInt8 :: payload) = payload := by
  cases tag <;> rfl

theorem withoutTag_of_no_tag (h : ∀ (tag : LineTag) (more : List UInt8), rest ≠ tag.letter :: ' '.toUInt8 :: more) :
    withoutTag rest = rest := by
  unfold withoutTag
  split
  · next t s more =>
    apply if_neg
    rw [Bool.and_eq_true, Bool.or_eq_true, beq_iff_eq, beq_iff_eq, beq_iff_eq]
    rintro ⟨rfl | rfl, rfl⟩
    · exact h .full more rfl
    · exact h .part more rfl
  · rfl

theorem payloadIn_iff : PayloadIn rest payload ↔ withoutTag rest = payload := by
  constructor
  · rintro (⟨tag, rfl⟩ | ⟨rfl, hnone⟩)
    · exact withoutTag_letter tag payload
    · exact withoutTag_of_no_tag hnone
  · rintro rfl
    by_cases htag : ∃ (tag : LineTag) (more : List UInt8), rest = tag.letter :: ' '.toUInt8 :: more
    · obtain ⟨tag, more, rfl⟩ := htag
      rw [withoutTag_letter]
      exact .inl ⟨tag, rfl⟩
    · have hnone : ∀ (tag : LineTag) (more : List UInt8), rest ≠ tag.letter :: ' '.toUInt8 :: more :=
        fun tag more h => htag ⟨tag, more, h⟩
      exact .inr ⟨(withoutTag_of_no_tag hnone).symm, hnone⟩

/-! ### The reader -/

/-- No name of a stream has a space. -/
theorem space_notMem_name (stream : ContainerStream) : ' '.toUInt8 ∉ Text.encode stream.name := by
  rw [Text.encode_eq, Text.toUInt8_mem_encodeChars_iff (by decide)]
  cases stream <;> decide

/-- The lines that have parts, whatever their first bytes look like. -/
theorem parts?_of_hasForm (h : HasForm bytes cri) : parts? bytes = some cri := by
  obtain ⟨time, rest, rfl, hspace, htime, -, hpayload⟩ := h
  have hstream : ContainerStream.ofName? (Text.encode cri.stream.name) = some cri.stream :=
    ContainerStream.ofName?_eq_some_iff.mpr rfl
  simp only [parts?, splitAtSpace?_append hspace, splitAtSpace?_append (space_notMem_name _), Text.decode?_encode,
    htime, hstream, payloadIn_iff.mp hpayload, Option.bind_eq_bind, Option.bind_some, Option.pure_def]

theorem looksStamped_of_hasForm (h : HasForm bytes cri) : LooksStamped bytes := by
  obtain ⟨time, rest, rfl, -, htime, hcapital, -⟩ := h
  rw [Text.encode_eq] at hcapital ⊢
  exact looksStamped_of_rfc3339? htime hcapital _

/-- What the reader takes apart has the form of a line. -/
theorem hasForm_of_ofBytes? (h : ofBytes? bytes = some cri) : HasForm bytes cri := by
  have hlooks : LooksStamped bytes := (ofBytes?_eq_some_iff_parts?.mp h).1
  obtain ⟨time, tagged, rfl, htime, hspace, hpayload⟩ := ofBytes?_cases h
  have hencode : Text.encode (String.ofList time) = Text.encodeChars time := by
    rw [Text.encode_eq, String.toList_ofList]
  refine ⟨String.ofList time, tagged, ?_, ?_, ?_, ?_, payloadIn_iff.mpr hpayload.symm⟩
  · rw [hencode]
  · rwa [hencode, Text.toUInt8_mem_encodeChars_iff (by decide)]
  · rwa [String.toList_ofList]
  · have hcapital := hlooks.signs (10, 'T') (by decide)
    have hlength : 20 ≤ (Text.encodeChars time).length := length_of_rfc3339? htime
    rwa [List.getElem?_append_left (by omega), ← hencode] at hcapital

theorem ofBytes?_iff_hasForm : ofBytes? bytes = some cri ↔ HasForm bytes cri := by
  constructor
  · exact hasForm_of_ofBytes?
  · intro h
    exact ofBytes?_eq_some_iff_parts?.mpr ⟨looksStamped_of_hasForm h, parts?_of_hasForm h⟩

/-- **The reader finds the parts of just the lines of this form.** It meets no place that the bytes do not have,
however many there are, and the look at the first bytes lets every line of the form pass. -/
theorem read_exact (bytes : List UInt8) :
    (∃ found, read bytes = .ok found ∧ ofBytes? bytes = found) ∧
      (∀ cri, read bytes = .ok (some cri) ↔ HasForm bytes cri) ∧
      ∀ cri, HasForm bytes cri → looksStamped bytes = .ok true := by
  obtain ⟨found, hfound, hlooks⟩ := exists_looksStamped bytes
  have hread := read_eq hfound
  refine ⟨⟨_, hread, ?_⟩, ?_, ?_⟩
  · rw [ofBytes?, hread]
  · intro cri
    rw [← ofBytes?_iff_hasForm, ofBytes?, hread]
    simp
  · intro cri h
    rw [hfound, hlooks.mpr (looksStamped_of_hasForm h)]

end CriLine

end LegibleLog
