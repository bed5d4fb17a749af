import LegibleLog.Proofs.Places
import LegibleLog.Proofs.Records
import LegibleLog.Shape

/-!
# What stands before a wrapped record

* `Time.timeChars_of_rfc3339?` — the characters of a time in the form of RFC 3339;
* `CriLine.ofBytes?_cases`, `ComposeLine.ofPlain?_eq_some_iff`, `ZapLine.ofBytes?_cases` — the parts of each kind of
  line;
* `CriLine.prefixed`, `ComposeLine.prefixed`, `ZapLine.prefixed` — no wrapped line begins as a record does.
-/

namespace LegibleLog

/-! ### Times -/

namespace Time

/-- A character of a written time: no control character and no equals sign, and no blank but the space. -/
def IsTimeChar (c : Char) : Prop := 0x20 ≤ c.toNat ∧ c ≠ '=' ∧ (c ≠ ' ' → Text.isBlank c = false)

instance : DecidablePred IsTimeChar := fun c => by
  unfold IsTimeChar
  infer_instance

variable {cs rest : List Char} {n : Nat}

theorem isTimeChar_of_isDigit (c : Char) (h : c.isDigit = true) : IsTimeChar c := by
  obtain ⟨hlow, hhigh⟩ := Text.toNat_of_isDigit h
  refine ⟨by omega, ?_, fun _ => Text.isBlank_of_visible (by omega) (by omega)⟩
  rintro rfl
  exact absurd hhigh (by decide)

theorem exists_digits_of_readDigits? {least most : Nat} (h : readDigits? least most cs = some (n, rest)) :
    ∃ ds, cs = ds ++ rest ∧ (∀ c ∈ ds, c.isDigit = true) ∧ least ≤ ds.length ∧ ds.length ≤ most := by
  unfold readDigits? at h
  dsimp only at h
  split at h
  · cases h
  · next hlen =>
    cases h
    have hfront : (cs.take most).takeWhile Char.isDigit <+: cs :=
      (List.takeWhile_prefix _).trans (List.take_prefix _ _)
    refine ⟨_, ?_, fun _ => List.mem_takeWhile_imp, Nat.le_of_not_lt hlen, ?_⟩
    · conv_lhs => rw [← List.take_append_drop ((cs.take most).takeWhile Char.isDigit).length cs]
      rw [← List.prefix_iff_eq_take.mp hfront]
    · exact (List.takeWhile_prefix _).length_le.trans (List.length_take_le most cs)

theorem takes_readDigits? {least most : Nat} (h : readDigits? least most cs = some (n, rest)) :
    Takes IsTimeChar cs rest := by
  obtain ⟨ds, rfl, hds, -⟩ := exists_digits_of_readDigits? h
  exact ⟨ds, rfl, fun c hc => isTimeChar_of_isDigit c (hds c hc)⟩

theorem eq_cons_of_readChar? {c : Char} (h : readChar? c cs = some rest) : cs = c :: rest := by
  unfold readChar? at h
  split at h
  · cases h
  · split at h
    · next hc =>
      cases h
      rw [eq_of_beq hc]
    · cases h

theorem takes_readDateEnd? (h : readDateEnd? cs = some rest) : Takes IsTimeChar cs rest := by
  unfold readDateEnd? at h
  split at h
  · cases h
    exact .cons (by decide) (.refl _ _)
  · cases h
    exact .cons (by decide) (.refl _ _)
  · cases h
    exact .cons (by decide) (.refl _ _)
  · cases h

theorem takes_fraction {p p' : Parts} (h : Element.fraction.read? p cs = some (p', rest)) :
    Takes IsTimeChar cs rest := by
  simp only [Element.read?] at h
  split at h
  · simp only [Option.map_eq_some_iff, Prod.mk.injEq, Prod.exists] at h
    obtain ⟨n, r, hn, -, rfl⟩ := h
    unfold readFraction? at hn
    dsimp only at hn
    split at hn
    · cases hn
    · cases hn
      exact .cons (by decide) (.dropWhile isTimeChar_of_isDigit _)
  · cases h
    exact .refl _ _

theorem takes_readSign? {west : Bool} (h : readSign? true cs = some (west, rest)) : Takes IsTimeChar cs rest := by
  unfold readSign? at h
  split at h
  · cases h
    exact .cons (by decide) (.refl _ _)
  · cases h
    exact .cons (by decide) (.refl _ _)
  · cases h
    exact .cons (by decide) (.refl _ _)
  · cases h

theorem takes_readZone? {offset : Int} (h : readZone? cs = some (offset, rest)) : Takes IsTimeChar cs rest := by
  unfold readZone? at h
  split at h
  · cases h
    exact .cons (by decide) (.refl _ _)
  · cases h
    exact .cons (by decide) (.refl _ _)
  · simp only [Option.bind_eq_bind, Option.bind_eq_some_iff, Prod.exists] at h
    obtain ⟨offset', r, hoffset, hrange⟩ := h
    split at hrange
    · cases hrange
      simp only [readOffset?, Option.bind_eq_bind, Option.bind_eq_some_iff, Prod.exists] at hoffset
      obtain ⟨west, r₁, hsign, hours, r₂, hhours, r₃, hcolon, minutes, r₄, hminutes, hlimit⟩ := hoffset
      split at hlimit
      · cases hlimit
        obtain rfl := eq_cons_of_readChar? hcolon
        exact (takes_readSign? hsign).trans ((takes_readDigits? hhours).trans
          (.cons (by decide) (takes_readDigits? hminutes)))
      · cases hlimit
    · cases hrange

/-- **The characters of a time in the form of RFC 3339.** The first one is a digit, and there is a colon. -/
theorem timeChars_of_rfc3339? {t : Timestamp} (h : rfc3339? cs = some t) :
    (∀ c ∈ cs, IsTimeChar c) ∧ ':' ∈ cs ∧ ∃ d r, cs = d :: r ∧ d.isDigit = true := by
  unfold rfc3339? at h
  split at h
  · next parts hread =>
    simp only [readTimestamp?, Option.bind_eq_bind, Option.bind_eq_some_iff, Option.pure_def, Option.some.injEq,
      Prod.mk.injEq, Prod.exists] at hread
    obtain ⟨_, _, hyear, _, hdash, _, _, hmonth, _, hdash', _, _, hday, _, hend, _, _, hhour, _, hcolon, _, _, hminute,
      _, hcolon', _, _, hsecond, _, _, hfraction, _, _, hzone, -, rfl⟩ := hread
    have hfirst : ∃ d r, cs = d :: r ∧ d.isDigit = true := by
      obtain ⟨ds, rfl, hds, hlen, -⟩ := exists_digits_of_readDigits? hyear
      cases ds with
      | nil => cases hlen
      | cons d ds => exact ⟨d, _, rfl, hds d List.mem_cons_self⟩
    obtain rfl := eq_cons_of_readChar? hdash
    obtain rfl := eq_cons_of_readChar? hdash'
    obtain rfl := eq_cons_of_readChar? hcolon
    obtain rfl := eq_cons_of_readChar? hcolon'
    have hback := (takes_readDigits? hminute).trans (.cons (by decide) ((takes_readDigits? hsecond).trans
      ((takes_fraction hfraction).trans (takes_readZone? hzone))))
    have hfront := (takes_readDigits? hyear).trans (.cons (by decide) ((takes_readDigits? hmonth).trans
      (.cons (by decide) ((takes_readDigits? hday).trans ((takes_readDateEnd? hend).trans (takes_readDigits? hhour))))))
    obtain ⟨front, hcs, hfront⟩ := hfront
    obtain ⟨back, rfl, hback⟩ := hback
    rw [hcs]
    refine ⟨?_, by simp, hcs ▸ hfirst⟩
    rw [List.append_nil]
    exact List.forall_mem_append.mpr ⟨hfront, List.forall_mem_cons.mpr ⟨by decide, hback⟩⟩
  · cases h

end Time

/-! ### Lines of container runtimes -/

theorem byte_of_time {time : List Char} {t : Time.Timestamp} (h : Time.rfc3339? time = some t) (hspace : ' ' ∉ time) :
    ∀ b ∈ Text.encodeChars time, Text.isAsciiBlank b = false := by
  intro b hb
  refine Bool.eq_false_iff.mpr fun hblank => ?_
  obtain ⟨hascii, hblank⟩ := Text.isBlank_ofUInt8 b hblank
  rw [← Text.toUInt8_ofUInt8 b, Text.toUInt8_mem_encodeChars_iff hascii] at hb
  have hchar := ((Time.timeChars_of_rfc3339? h).1 _ hb).2.2 fun heq => hspace (heq ▸ hb)
  rw [hchar] at hblank
  cases hblank

namespace CriLine

variable {line : List UInt8} {cri : CriLine}

theorem eq_append_of_splitAtSpace? {bytes l r : List UInt8} (h : splitAtSpace? bytes = some (l, r)) :
    bytes = l ++ ' '.toUInt8 :: r ∧ ' '.toUInt8 ∉ l := by
  unfold splitAtSpace? at h
  split at h
  · next b rest hdrop =>
    cases h
    have hspace : b = ' '.toUInt8 := by
      have hhead := List.head?_dropWhile_not (· != ' '.toUInt8) bytes
      rw [hdrop] at hhead
      simpa using hhead
    refine ⟨?_, fun hmem => absurd (List.mem_takeWhile_imp hmem) (by simp)⟩
    subst hspace
    rw [← hdrop, List.takeWhile_append_dropWhile]
  · cases h

/-- **The parts of a line of a container runtime.** -/
theorem ofBytes?_cases (h : ofBytes? line = some cri) :
    ∃ time tagged, line = Text.encodeChars time ++ ' '.toUInt8 ::
        (Text.encode cri.stream.name ++ ' '.toUInt8 :: tagged) ∧
      Time.rfc3339? time = some cri.timestamp ∧ ' ' ∉ time ∧ cri.payload = withoutTag tagged := by
  have hparts := (ofBytes?_eq_some_iff_parts?.mp h).2
  simp only [parts?, Option.bind_eq_bind, Option.bind_eq_some_iff, Option.pure_def, Option.some.injEq,
    Prod.exists] at hparts
  obtain ⟨time, r, htime, text, htext, timestamp, hstamp, name, tagged, hname, stream, hstream, rfl⟩ := hparts
  obtain ⟨rfl, hspace⟩ := eq_append_of_splitAtSpace? htime
  obtain ⟨rfl, -⟩ := eq_append_of_splitAtSpace? hname
  have hencode := Text.decode?_eq_some_iff.mp htext
  refine ⟨text.toList, tagged, ?_, hstamp, ?_, rfl⟩
  · unfold ContainerStream.ofName? at hstream
    have hname := List.find?_some hstream
    rw [hencode, ← eq_of_beq hname]
  · rwa [← Text.toUInt8_mem_encodeChars_iff (by decide), hencode]

/-- No line of a container runtime begins as a record does. -/
theorem prefixed (h : ofBytes? line = some cri) : Prefixed line := by
  obtain ⟨time, tagged, rfl, htime, -, -⟩ := ofBytes?_cases h
  obtain ⟨hchars, -, d, r, rfl, hd⟩ := Time.timeChars_of_rfc3339? htime
  obtain ⟨hlow, hhigh⟩ := Text.toNat_of_isDigit hd
  have hascii : d.toNat < 0x80 := by omega
  have hbytes : Text.encodeChars (d :: r) = d.toUInt8 :: Text.encodeChars r := by
    rw [Text.encodeChars, List.flatMap_cons, Text.utf8EncodeChar_of_ascii hascii]
    rfl
  rw [hbytes, List.cons_append]
  refine ⟨_, _, _, _, rfl, ?_, ?_, ?_, by decide⟩
  · rw [Text.toNat_toUInt8 hascii]
    omega
  · rw [Text.toNat_toUInt8 hascii]
    omega
  · rw [← hbytes, Text.toUInt8_mem_encodeChars_iff (by decide)]
    exact fun hmem => (hchars _ hmem).2.1 rfl

end CriLine

/-! ### Lines of composed services -/

namespace ComposeLine

variable {line : List UInt8} {compose : ComposeLine}

/-- A byte of a name is visible, and it stands neither in a time nor before an opening brace. -/
theorem isNameByte_cases : ∀ b : UInt8, isNameByte b = true →
    0x20 < b.toNat ∧ b.toNat < 0x7B ∧ b ≠ '='.toUInt8 ∧ b ≠ ':'.toUInt8 := Text.forall_byte (by decide +kernel)

theorem not_isNameByte_of_blank {b : UInt8} (h : Text.isAsciiBlank b = true) : isNameByte b = false := by
  refine Bool.eq_false_iff.mpr fun hb => ?_
  rw [Text.isAsciiBlank_of_visible b (isNameByte_cases b hb).1] at h
  cases h

/-- **The parts of a line of a composed service.** -/
theorem ofPlain?_eq_some_iff : ofPlain? line = some compose ↔
    ∃ name blanks, line = name ++ (blanks ++ '|'.toUInt8 :: ' '.toUInt8 :: compose.payload) ∧
      name ≠ [] ∧ (∀ b ∈ name, isNameByte b = true) ∧ blanks ≠ [] ∧ (∀ b ∈ blanks, Text.isAsciiBlank b = true) ∧
      '\n'.toUInt8 ∉ compose.payload ∧ compose.service = String.ofList (name.map Char.ofUInt8) := by
  constructor
  · intro h
    unfold ofPlain? at h
    dsimp only at h
    split at h
    · cases h
    · next hname =>
      rw [Bool.or_eq_true, not_or, Bool.not_eq_true, Bool.not_eq_true, Bool.not_eq_false'] at hname
      obtain ⟨hne, hblank⟩ := hname
      split at h
      · next bar space payload hdrop =>
        split at h
        · next hbar =>
          cases h
          rw [Bool.and_eq_true, Bool.and_eq_true, beq_iff_eq, beq_iff_eq, Bool.not_eq_true'] at hbar
          obtain ⟨⟨rfl, rfl⟩, hfeed⟩ := hbar
          refine ⟨line.takeWhile isNameByte, (line.dropWhile isNameByte).takeWhile Text.isAsciiBlank, ?_, ?_,
            fun _ => List.mem_takeWhile_imp, ?_, fun _ => List.mem_takeWhile_imp, ?_, rfl⟩
          · rw [← hdrop, List.takeWhile_append_dropWhile, List.takeWhile_append_dropWhile]
          · exact fun hnil => by simp [hnil] at hne
          · intro hnil
            cases hrest : line.dropWhile isNameByte with
            | nil => simp [hrest] at hblank
            | cons b more =>
              rw [hrest] at hblank hnil
              rw [List.takeWhile_cons_of_pos (by simpa using hblank)] at hnil
              cases hnil
          · simpa using hfeed
        · cases h
      · cases h
  · rintro ⟨name, blanks, rfl, hne, hname, hblanks, hblank, hfeed, hservice⟩
    obtain ⟨b, more, rfl⟩ := List.exists_cons_of_ne_nil hblanks
    have hb := hblank b List.mem_cons_self
    have hhead : ∀ c ∈ ((b :: more) ++ '|'.toUInt8 :: ' '.toUInt8 :: compose.payload).head?, isNameByte c = false := by
      rintro c ⟨⟩
      exact not_isNameByte_of_blank hb
    obtain ⟨htake, hdrop⟩ := takeWhile_append_eq hname hhead
    have hbar : ∀ c ∈ ('|'.toUInt8 :: ' '.toUInt8 :: compose.payload).head?, Text.isAsciiBlank c = false := by
      rintro c ⟨⟩
      decide
    obtain ⟨-, hdrop'⟩ := takeWhile_append_eq hblank hbar
    unfold ofPlain?
    simp only [htake, hdrop, hdrop']
    simp [hne, hb, hfeed, ← hservice]

/-- No line of a composed service begins as a record does. -/
theorem prefixed (h : ofPlain? line = some compose) : Prefixed line := by
  obtain ⟨name, blanks, rfl, hne, hname, hblanks, hblank, -, -⟩ := ofPlain?_eq_some_iff.mp h
  obtain ⟨first, word, rfl⟩ := List.exists_cons_of_ne_nil hne
  obtain ⟨b, more, rfl⟩ := List.exists_cons_of_ne_nil hblanks
  obtain ⟨hlow, hhigh, -⟩ := isNameByte_cases first (hname first List.mem_cons_self)
  refine ⟨first, word, b, _, rfl, hlow, hhigh, ?_, hblank b List.mem_cons_self⟩
  exact fun hmem => (isNameByte_cases _ (hname _ hmem)).2.2.1 rfl

end ComposeLine

/-! ### Console lines -/

namespace ZapLine

variable {line word blanks rest : List UInt8} {zap : ZapLine}

theorem splitWord_append (hword : ∀ b ∈ word, Text.isAsciiBlank b = false) (hne : blanks ≠ [])
    (hblanks : ∀ b ∈ blanks, Text.isAsciiBlank b = true) (hrest : ∀ b ∈ rest.head?, Text.isAsciiBlank b = false) :
    splitWord (word ++ (blanks ++ rest)) = (word, blanks, rest) := by
  have hword' : ∀ b ∈ word, (! Text.isAsciiBlank b) = true := fun b hb => by rw [hword b hb]; rfl
  have hhead : ∀ b ∈ (blanks ++ rest).head?, (! Text.isAsciiBlank b) = false := by
    obtain ⟨b, more, rfl⟩ := List.exists_cons_of_ne_nil hne
    rintro c ⟨⟩
    rw [hblanks b List.mem_cons_self]
    rfl
  obtain ⟨htake, hdrop⟩ := takeWhile_append_eq hword' hhead
  obtain ⟨htake', hdrop'⟩ := takeWhile_append_eq hblanks hrest
  simp only [splitWord, htake, hdrop, htake', hdrop']

/-- A word, the blanks behind it and the rest make up a line. -/
theorem splitWord_cases (line : List UInt8) :
    line = (splitWord line).1 ++ ((splitWord line).2.1 ++ (splitWord line).2.2) ∧
      (∀ b ∈ (splitWord line).2.1, Text.isAsciiBlank b = true) ∧
      ((splitWord line).2.2 ≠ [] → (splitWord line).2.1 ≠ []) := by
  refine ⟨by simp [splitWord], fun b hb => List.mem_takeWhile_imp hb, fun hrest hblanks => hrest ?_⟩
  unfold splitWord at hblanks ⊢
  dsimp only at hblanks ⊢
  cases hdrop : line.dropWhile (! Text.isAsciiBlank ·) with
  | nil => rfl
  | cons b more =>
    -- the word ends at a blank
    have hhead := List.head?_dropWhile_not (! Text.isAsciiBlank ·) line
    rw [hdrop] at hhead hblanks
    rw [List.takeWhile_cons_of_pos (by simpa using hhead)] at hblanks
    cases hblanks

/-! #### Timestamps -/

theorem takes_afterMask? {p : UInt8 → Prop} (hdigit : ∀ b, isDigit b = true → p b) {mask : List Char}
    (hmask : ∀ c ∈ mask, p c.toUInt8) {bytes r : List UInt8} (h : afterMask? mask bytes = some r) :
    Takes p bytes r := by
  fun_induction afterMask? mask bytes with
  | case1 r' =>
    cases h
    exact .refl _ _
  | case2 mask b r' hb ih => exact .cons (hdigit b hb) (ih (fun c hc => hmask c (List.mem_cons_of_mem _ hc)) h)
  | case3 => cases h
  | case4 c mask b r' _ hb ih =>
    have hp := hmask c List.mem_cons_self
    rw [← eq_of_beq hb] at hp
    exact .cons hp (ih (fun c hc => hmask c (List.mem_cons_of_mem _ hc)) h)
  | case5 => cases h
  | case6 => cases h

theorem mem_of_afterMask? {mask : List Char} {c : Char} (hc : c ∈ mask) (hzero : c ≠ '0') {bytes r : List UInt8}
    (h : afterMask? mask bytes = some r) : c.toUInt8 ∈ bytes := by
  fun_induction afterMask? mask bytes with
  | case1 => cases hc
  | case2 mask b r' hb ih =>
    exact List.mem_cons_of_mem _ (ih ((List.mem_cons.mp hc).resolve_left hzero) h)
  | case3 => cases h
  | case4 d mask b r' _ hb ih =>
    rcases List.mem_cons.mp hc with rfl | hc
    · rw [eq_of_beq hb]
      exact List.mem_cons_self
    · exact List.mem_cons_of_mem _ (ih hc h)
  | case5 => cases h
  | case6 => cases h

/-- A digit is visible, and it stands before the equals sign among the bytes. -/
theorem isDigit_cases : ∀ b : UInt8, isDigit b = true → 0x20 < b.toNat ∧ b.toNat < 0x7B ∧ b ≠ '='.toUInt8 :=
  Text.forall_byte (by decide +kernel)

theorem takes_isZone {bytes : List UInt8} (h : isZone bytes = true) : Takes (· ≠ '='.toUInt8) bytes [] := by
  obtain ⟨mask, hmem, hmask⟩ := List.any_eq_true.mp h
  have hequals : ∀ mask ∈ ["Z", "+00:00", "+0000", "-00:00", "-0000"], mask.toList.all (·.toUInt8 != '='.toUInt8) := by
    decide
  have hchars : ∀ c ∈ mask.toList, c.toUInt8 ≠ '='.toUInt8 := by simpa using hequals mask hmem
  exact takes_afterMask? (fun b hb => (isDigit_cases b hb).2.2) hchars (eq_of_beq hmask)

theorem takes_isFractionAndZone {bytes : List UInt8} (h : isFractionAndZone bytes = true) :
    Takes (· ≠ '='.toUInt8) bytes [] := by
  unfold isFractionAndZone at h
  split at h
  · split at h
    · next hpoint =>
      rw [Bool.and_eq_true, beq_iff_eq] at hpoint
      obtain ⟨rfl, hdigit⟩ := hpoint
      refine .cons (by decide) (.cons (isDigit_cases _ hdigit).2.2 (.trans (.dropWhile ?_ _) (takes_isZone h)))
      exact fun b hb => (isDigit_cases b hb).2.2
    · exact takes_isZone h
  · exact takes_isZone h

/-- **The bytes of a timestamp.** The first one is a digit, and there is a colon, but no equals sign. -/
theorem isStamp_cases (h : isStamp word = true) :
    '='.toUInt8 ∉ word ∧ ':'.toUInt8 ∈ word ∧ ∃ first more, word = first :: more ∧ isDigit first = true := by
  unfold isStamp at h
  split at h
  · next r hmask =>
    refine ⟨?_, mem_of_afterMask? (by decide) (by decide) hmask, ?_⟩
    · have hequals : "0000-00-00T00:00:00".toList.all (·.toUInt8 != '='.toUInt8) = true := by decide
      have hchars : ∀ c ∈ "0000-00-00T00:00:00".toList, c.toUInt8 ≠ '='.toUInt8 := by simpa using hequals
      have hfront : Takes (· ≠ '='.toUInt8) word r :=
        takes_afterMask? (fun b hb => (isDigit_cases b hb).2.2) hchars hmask
      obtain ⟨taken, rfl, htaken⟩ := hfront.trans (takes_isFractionAndZone h)
      rw [List.append_nil]
      exact fun hmem => htaken _ hmem rfl
    · cases word with
      | nil => cases hmask
      | cons first more =>
        refine ⟨first, more, rfl, ?_⟩
        have hzero : "0000-00-00T00:00:00".toList = '0' :: "000-00-00T00:00:00".toList := by decide
        rw [hzero, afterMask?] at hmask
        split at hmask
        · assumption
        · cases hmask
  · cases h

/-! #### Message and body -/

theorem isCaller_singleton (b : UInt8) : isCaller [b] = false := by
  unfold isCaller
  by_cases hb : isDigit b = true <;> simp [hb]

/-- The body stands behind a tab. -/
theorem eq_append_of_splitAtBody? {done bytes message body : List UInt8}
    (h : splitAtBody? done bytes = some (message, body)) : done.reverse ++ bytes = message ++ '\t'.toUInt8 :: body := by
  fun_induction splitAtBody? done bytes with
  | case1 => cases h
  | case2 done b r hb =>
    cases h
    rw [Bool.and_eq_true, beq_iff_eq] at hb
    rw [hb.1]
  | case3 done b r hb ih => simpa using ih h

theorem exists_tab_of_splitMessage? {message body : List UInt8} (h : splitMessage? blanks rest = some (message, body)) :
    ∃ front, blanks ++ rest = front ++ '\t'.toUInt8 :: body := by
  unfold splitMessage? at h
  split at h
  · cases h
  · split at h
    · next hsplit =>
      cases h
      exact ⟨blanks ++ message, by rw [List.append_assoc, ← eq_append_of_splitAtBody? hsplit]; rfl⟩
    · split at h
      · next hblanks =>
        cases h
        rw [Bool.and_eq_true, Bool.and_eq_true, beq_iff_eq] at hblanks
        obtain ⟨front, rfl⟩ := List.getLast?_eq_some_iff.mp hblanks.1.2
        exact ⟨front, by simp⟩
      · cases h

/-- **The parts of a console line.** Behind the third word, there is a tab before the body. -/
theorem ofBytes?_cases (h : ofBytes? line = some zap) :
    isStamp (splitWord line).1 = true ∧
    ∃ caller front, isCaller caller = true ∧ (splitWord (splitWord (splitWord line).2.2).2.2).1 = caller ∧
      (splitWord (splitWord line).2.2).2.2 = caller ++ (front ++ '\t'.toUInt8 :: zap.body) := by
  unfold ofBytes? at h
  simp only [Option.bind_eq_bind, Option.bind_none, Option.pure_def, Option.ite_none_left_eq_some,
    Option.bind_eq_some_iff, Option.some.injEq, Prod.exists, Bool.not_eq_true', Bool.not_eq_false] at h
  obtain ⟨hstamp, -, hcaller, message, body, hmessage, -, -, -, -, -, -, rfl⟩ := h
  obtain ⟨front, hfront⟩ := exists_tab_of_splitMessage? hmessage
  refine ⟨hstamp, _, front, hcaller, rfl, ?_⟩
  rw [← hfront]
  exact (splitWord_cases _).1

/-- No console line begins as a record does. -/
theorem prefixed (h : ofBytes? line = some zap) : Prefixed line := by
  obtain ⟨hstamp, caller, front, -, -, hrest⟩ := ofBytes?_cases h
  obtain ⟨hequals, -, first, word, hfirst, hdigit⟩ := isStamp_cases hstamp
  obtain ⟨hline, hblank, hblanks⟩ := splitWord_cases line
  have hne : (splitWord line).2.2 ≠ [] := by
    intro hnil
    rw [hnil] at hrest
    simp [splitWord] at hrest
  obtain ⟨b, more, hb⟩ := List.exists_cons_of_ne_nil (hblanks hne)
  obtain ⟨hlow, hhigh, -⟩ := isDigit_cases first hdigit
  rw [hfirst, hb] at hline
  exact ⟨first, word, b, _, hline, hlow, hhigh, hfirst ▸ hequals, hblank b (hb ▸ List.mem_cons_self)⟩

end ZapLine

end LegibleLog
