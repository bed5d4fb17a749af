import LegibleLog.Proofs.Logfmt.Reading

/-!
# One reading of each text

A text looks like one row at most, so that it makes sense to speak of the spellings in it.  With them, the readers can
be compared with the grammar proper, in which a number has four digits.

* `Row.eq_of_text_eq` — rows that look alike are the same;
* `Row.legal_fourDigits_iff` — the grammar proper leaves out the rows with a sign in a number, and no others;
* `decode_iff_fourDigits_iff` — a text is decoded exactly when it is a record of the grammar proper, unless there is a
  sign in one of its numbers.
-/

namespace LegibleLog.Logfmt

/-! ### Rows that look alike -/

section Digits

variable {ds ds' r r' : List Char} {n m : Nat}

theorem digits_eq_of_append (hn : hexNumber? ds = some n) (hm : hexNumber? ds' = some m)
    (h : ds ++ r = ds' ++ r') : ds = ds' ∧ r = r' :=
  List.append_inj h ((hexNumber?_eq_some hn).1.trans (hexNumber?_eq_some hm).1.symm)

/-- The same four characters do not write a character and a surrogate. -/
theorem digits_ne_of_surrogate (hn : hexNumber? ds = some n) (hvalid : n.isValidChar)
    (hm : hexNumber? ds' = some m) (hhigh : Text.isHighSurrogate m = true) : ds ++ r ≠ ds' ++ r' := by
  intro h
  obtain ⟨rfl, -⟩ := digits_eq_of_append hn hm h
  obtain rfl := Option.some.inj (hn.symm.trans hm)
  rw [((isValidChar_iff (hexNumber?_eq_some hn).2).mp hvalid).1] at hhigh
  cases hhigh

end Digits

theorem Spelling.eq_of_append {s s' : Spelling} {r r' : List Char} (hs : s.Legal hexNumber?)
    (hs' : s'.Legal hexNumber?) (h : s.text ++ r = s'.text ++ r') : s = s' ∧ r = r' := by
  cases s with
  | plain c =>
    obtain ⟨rfl, rfl⟩ := plain_of_text_eq hs.2 h.symm
    exact ⟨rfl, rfl⟩
  | escape c =>
    cases s' with
    | plain d => exact absurd (List.cons.inj h).1.symm hs'.2
    | escape d =>
      simp only [text, List.cons_append, List.nil_append, List.cons.injEq, true_and] at h
      obtain ⟨rfl, rfl⟩ := h
      exact ⟨rfl, rfl⟩
    | number ds => exact absurd (List.cons.inj (List.cons.inj h).2).1 hs
    | pair hs₂ ls₂ => exact absurd (List.cons.inj (List.cons.inj h).2).1 hs
  | number ds =>
    obtain ⟨n, hn, hvalid⟩ := hs
    cases s' with
    | plain d => exact absurd (List.cons.inj h).1.symm hs'.2
    | escape d => exact absurd (List.cons.inj (List.cons.inj h).2).1.symm hs'
    | number ds₂ =>
      obtain ⟨n₂, hn₂, -⟩ := hs'
      simp only [text, List.cons_append, List.cons.injEq, true_and] at h
      obtain ⟨rfl, rfl⟩ := digits_eq_of_append hn hn₂ h
      exact ⟨rfl, rfl⟩
    | pair hs₂ ls₂ =>
      obtain ⟨m, l, hm, -, hhigh, -⟩ := hs'
      simp only [text, List.cons_append, List.append_assoc, List.cons.injEq, true_and] at h
      exact absurd h (digits_ne_of_surrogate hn hvalid hm hhigh)
  | pair hs₁ ls₁ =>
    obtain ⟨m, l, hm, hl, hhigh, -⟩ := hs
    cases s' with
    | plain d => exact absurd (List.cons.inj h).1.symm hs'.2
    | escape d => exact absurd (List.cons.inj (List.cons.inj h).2).1.symm hs'
    | number ds₂ =>
      obtain ⟨n, hn, hvalid⟩ := hs'
      simp only [text, List.cons_append, List.append_assoc, List.cons.injEq, true_and] at h
      exact absurd h.symm (digits_ne_of_surrogate hn hvalid hm hhigh)
    | pair hs₂ ls₂ =>
      obtain ⟨m₂, l₂, hm₂, hl₂, -, -⟩ := hs'
      simp only [text, List.cons_append, List.append_assoc, List.cons.injEq, true_and] at h
      obtain ⟨rfl, hlow⟩ := digits_eq_of_append hm hm₂ h
      obtain ⟨rfl, rfl⟩ := digits_eq_of_append hl hl₂ (List.cons.inj (List.cons.inj hlow).2).2
      exact ⟨rfl, rfl⟩

theorem Spelling.head?_text_ne_quote {number? : List Char → Option Nat} {s : Spelling} (hs : s.Legal number?)
    (r r' : List Char) : s.text ++ r ≠ '"' :: r' := by
  intro h
  obtain ⟨rfl, -⟩ := plain_of_text_eq (by decide) h
  exact hs.1 rfl

theorem spellings_eq_of_append {items items' : List Spelling} {r r' : List Char}
    (hs : ∀ s ∈ items, s.Legal hexNumber?) (hs' : ∀ s ∈ items', s.Legal hexNumber?)
    (h : items.flatMap Spelling.text ++ '"' :: r = items'.flatMap Spelling.text ++ '"' :: r') : items = items' := by
  induction items generalizing items' with
  | nil =>
    cases items' with
    | nil => rfl
    | cons s' items' =>
      rw [List.flatMap_cons, List.append_assoc] at h
      exact absurd h.symm (Spelling.head?_text_ne_quote (hs' s' List.mem_cons_self) _ _)
  | cons s items ih =>
    obtain ⟨hfirst, hmore⟩ := List.forall_mem_cons.mp hs
    rw [List.flatMap_cons, List.append_assoc] at h
    cases items' with
    | nil => exact absurd h (Spelling.head?_text_ne_quote hfirst _ _)
    | cons s' items' =>
      obtain ⟨hfirst', hmore'⟩ := List.forall_mem_cons.mp hs'
      rw [List.flatMap_cons, List.append_assoc] at h
      obtain ⟨rfl, hrest⟩ := Spelling.eq_of_append hfirst hfirst' h
      rw [ih hmore hmore' hrest]

theorem Written.eq_of_text_eq {w w' : Written} (hw : w.Legal hexNumber?) (hw' : w'.Legal hexNumber?)
    (h : w.text = w'.text) : w = w' := by
  have hquote : isBare '"' = false := by decide
  cases w with
  | bare cs =>
    cases w' with
    | bare cs' => exact congrArg bare h
    | quoted items =>
      have hmem : '"' ∈ (bare cs).text := h ▸ List.mem_cons_self
      exact absurd (hw _ hmem) (by simp [hquote])
  | quoted items =>
    cases w' with
    | bare cs' =>
      have hmem : '"' ∈ (bare cs').text := h ▸ List.mem_cons_self
      exact absurd (hw' _ hmem) (by simp [hquote])
    | quoted items' => exact congrArg quoted (spellings_eq_of_append hw hw' (List.cons.inj h).2)

/-- The key ends at the first equals sign, and the value is told by the reader up to its last character. -/
theorem Token.eq_of_append {t t' : Token} {r r' : List Char} (ht : t.Legal hexNumber?) (ht' : t'.Legal hexNumber?)
    (hr : Ends r) (hr' : Ends r') (h : t.text ++ r = t'.text ++ r') : t = t' ∧ r = r' := by
  have hread := readToken_eq_ok_iff.mpr ⟨t, ht, rfl, rfl, hr⟩
  rw [h, readToken_eq_ok_iff.mpr ⟨t', ht', rfl, rfl, hr'⟩] at hread
  obtain ⟨-, rfl⟩ := Prod.mk.inj (Except.ok.inj hread)
  have htext := List.append_cancel_right h
  have hequals : isBare '=' = false := by decide
  have hstop : ∀ r, ∀ c ∈ ('=' :: r : List Char).head?, isBare c = false := by simp [hequals]
  obtain ⟨key, value⟩ := t
  obtain ⟨key', value'⟩ := t'
  have hsplit := takeWhile_append_eq ht.key_bare (hstop value.text)
  have hsplit' := takeWhile_append_eq ht'.key_bare (hstop value'.text)
  dsimp only [Token.text] at htext hsplit hsplit'
  rw [htext] at hsplit
  obtain rfl : key' = key := hsplit'.1.symm.trans hsplit.1
  obtain rfl : value = value' :=
    Written.eq_of_text_eq ht.value_legal ht'.value_legal (List.cons.inj (List.append_cancel_left htext)).2
  exact ⟨rfl, rfl⟩

/-- **One reading.** Rows that look alike are the same. -/
theorem Row.eq_of_text_eq {row row' : Row} (h : row.Legal hexNumber?) (h' : row'.Legal hexNumber?)
    (htext : row.text = row'.text) : row = row' := by
  obtain ⟨tokens, after⟩ := row
  obtain ⟨tokens', after'⟩ := row'
  induction tokens generalizing tokens' with
  | nil =>
    cases tokens' with
    | nil => exact congrArg (Row.mk []) htext
    | cons p' tokens' =>
      have hnil := h.trimStart_nil
      rw [htext, h'.blanks_cons.2] at hnil
      obtain ⟨c, r, hc, -⟩ := (h'.tokens p' List.mem_cons_self).2.text_eq_cons
      rw [hc] at hnil
      cases hnil
  | cons p tokens ih =>
    have hp := (h.tokens p List.mem_cons_self).2
    cases tokens' with
    | nil =>
      have hnil := h'.trimStart_nil
      rw [← htext, h.blanks_cons.2] at hnil
      obtain ⟨c, r, hc, -⟩ := hp.text_eq_cons
      rw [hc] at hnil
      cases hnil
    | cons p' tokens' =>
      obtain ⟨hgap, hrest⟩ := h.blanks_cons
      rw [htext, h'.blanks_cons.1] at hgap
      rw [htext, h'.blanks_cons.2] at hrest
      obtain ⟨htoken, htail⟩ :=
        Token.eq_of_append (h'.tokens p' List.mem_cons_self).2 hp h'.ends_rest h.ends_rest hrest
      obtain rfl : p' = p := Prod.ext hgap htoken
      have hsame := ih h.rest tokens' h'.rest htail.symm
      simp only [Row.mk.injEq] at hsame
      rw [hsame.1, hsame.2]

/-! ### Numbers with a sign -/

theorem fourDigits?_eq_some_iff {ds : List Char} {n : Nat} :
    fourDigits? ds = some n ↔ hexNumber? ds = some n ∧ ds.head? ≠ some '+' := by
  rw [hexNumber?_eq]
  constructor
  · intro h
    have hsign : ds.head? ≠ some '+' := by
      intro hsign
      obtain ⟨r, rfl⟩ := List.head?_eq_some_iff.mp hsign
      have hplus : Text.hexValue? '+' = none := by decide
      unfold fourDigits? at h
      split at h
      · next heq =>
        obtain ⟨rfl, -⟩ := List.cons.inj heq
        rw [hplus] at h
        cases h
      · cases h
    exact ⟨by rw [if_neg hsign]; exact h, hsign⟩
  · rintro ⟨h, hsign⟩
    rwa [if_neg hsign] at h

namespace Spelling

theorem legal_fourDigits_iff {s : Spelling} : s.Legal fourDigits? ↔ s.Legal hexNumber? ∧ ¬ s.IsSigned := by
  cases s with
  | plain c => simp [Legal, IsSigned]
  | escape c => simp [Legal, IsSigned]
  | number ds =>
    simp only [Legal, IsSigned, fourDigits?_eq_some_iff]
    constructor
    · rintro ⟨n, ⟨hn, hsign⟩, hvalid⟩
      exact ⟨⟨n, hn, hvalid⟩, hsign⟩
    · rintro ⟨⟨n, hn, hvalid⟩, hsign⟩
      exact ⟨n, ⟨hn, hsign⟩, hvalid⟩
  | pair hs ls =>
    simp only [Legal, IsSigned, fourDigits?_eq_some_iff, not_or]
    constructor
    · rintro ⟨h, l, ⟨hh, hsign⟩, ⟨hl, lsign⟩, hpair⟩
      exact ⟨⟨h, l, hh, hl, hpair⟩, hsign, lsign⟩
    · rintro ⟨⟨h, l, hh, hl, hpair⟩, hsign, lsign⟩
      exact ⟨h, l, ⟨hh, hsign⟩, ⟨hl, lsign⟩, hpair⟩

end Spelling

theorem Written.legal_fourDigits_iff {w : Written} :
    w.Legal fourDigits? ↔ w.Legal hexNumber? ∧ ∀ s ∈ w.spellings, ¬ s.IsSigned := by
  cases w with
  | bare cs => simp [Legal, spellings]
  | quoted items => simp only [Legal, spellings, Spelling.legal_fourDigits_iff, forall₂_and]

/-- **Signs.** The grammar proper is that of the readers without signs in numbers. -/
theorem Row.legal_fourDigits_iff {row : Row} :
    row.Legal fourDigits? ↔ row.Legal hexNumber? ∧ ∀ s ∈ row.spellings, ¬ s.IsSigned := by
  have hspellings : (∀ s ∈ row.spellings, ¬ s.IsSigned) ↔
      ∀ p ∈ row.tokens, ∀ s ∈ p.2.value.spellings, ¬ s.IsSigned := by
    simp only [Row.spellings, List.forall_mem_flatMap]
  rw [hspellings]
  constructor
  · intro h
    refine ⟨⟨fun p hp => ?_, h.apart, h.after⟩, fun p hp => ?_⟩
    · obtain ⟨hgap, ht⟩ := h.tokens p hp
      exact ⟨hgap, ht.key_ne_nil, ht.key_bare, (Written.legal_fourDigits_iff.mp ht.value_legal).1⟩
    · exact (Written.legal_fourDigits_iff.mp (h.tokens p hp).2.value_legal).2
  · rintro ⟨h, hsign⟩
    refine ⟨fun p hp => ?_, h.apart, h.after⟩
    obtain ⟨hgap, ht⟩ := h.tokens p hp
    exact ⟨hgap, ht.key_ne_nil, ht.key_bare, Written.legal_fourDigits_iff.mpr ⟨ht.value_legal, hsign p hp⟩⟩

/-! ### Records of the grammar proper -/

theorem exists_decode_iff {cs : List Char} :
    (∃ pairs, decode cs = .ok pairs) ↔ ∃ row : Row, row.Legal hexNumber? ∧ row.text = cs := by
  constructor
  · rintro ⟨pairs, h⟩
    obtain ⟨row, hrow, htext, -⟩ := decode_eq_ok_iff.mp h
    exact ⟨row, hrow, htext⟩
  · rintro ⟨row, hrow, htext⟩
    exact ⟨_, decode_eq_ok_iff.mpr ⟨row, hrow, htext, rfl⟩⟩

/-- **Records.** A text is decoded exactly when it is a record of the grammar in which a plus sign may stand for the
first digit of a number. So every record of the grammar proper is decoded; and nothing else is, exactly when no number
in the text has a sign. -/
theorem decode_iff_fourDigits_iff (cs : List Char) :
    ((∃ pairs, decode cs = .ok pairs) ↔ ∃ row : Row, row.Legal hexNumber? ∧ row.text = cs) ∧
      ((∃ row : Row, row.Legal fourDigits? ∧ row.text = cs) → ∃ pairs, decode cs = .ok pairs) ∧
      (((∃ pairs, decode cs = .ok pairs) ↔ ∃ row : Row, row.Legal fourDigits? ∧ row.text = cs) ↔
        ∀ row : Row, row.Legal hexNumber? → row.text = cs → ∀ s ∈ row.spellings, ¬ s.IsSigned) := by
  have hproper : (∃ row : Row, row.Legal fourDigits? ∧ row.text = cs) → ∃ pairs, decode cs = .ok pairs := by
    rintro ⟨row, hrow, htext⟩
    exact exists_decode_iff.mpr ⟨row, (Row.legal_fourDigits_iff.mp hrow).1, htext⟩
  refine ⟨exists_decode_iff, hproper, ?_⟩
  constructor
  · intro h row hrow htext
    obtain ⟨row', hrow', htext'⟩ := h.mp (exists_decode_iff.mpr ⟨row, hrow, htext⟩)
    obtain ⟨hlegal, hsign⟩ := Row.legal_fourDigits_iff.mp hrow'
    rwa [Row.eq_of_text_eq hrow hlegal (htext.trans htext'.symm)]
  · intro h
    refine ⟨fun hdecode => ?_, hproper⟩
    obtain ⟨row, hrow, htext⟩ := exists_decode_iff.mp hdecode
    exact ⟨row, Row.legal_fourDigits_iff.mpr ⟨hrow, h row hrow htext⟩, htext⟩

/-- The number in this text has a plus sign for its first digit: no record of the grammar proper, but it is decoded. -/
theorem decode_signed_number :
    decode "a=\"\\u+041\"".toList = .ok [("a", "A")] ∧
      ¬ ∃ row : Row, row.Legal fourDigits? ∧ row.text = "a=\"\\u+041\"".toList := by
  let signed : Row := ⟨[([], ⟨['a'], .quoted [.number ['+', '0', '4', '1']]⟩)], []⟩
  have hnumber : hexNumber? ['+', '0', '4', '1'] = some 65 := by decide
  have hsigned : signed.Legal hexNumber? := by
    refine ⟨?_, List.forall_mem_nil _, List.forall_mem_nil _⟩
    simp only [signed, List.mem_singleton, forall_eq]
    refine ⟨List.forall_mem_nil _, by simp, List.forall_mem_singleton.mpr (by decide), ?_⟩
    simp only [Written.Legal, List.mem_singleton, forall_eq]
    exact ⟨65, hnumber, by decide⟩
  refine ⟨decode_eq_ok_iff.mpr ⟨signed, hsigned, by decide, by decide⟩, ?_⟩
  rintro ⟨row, hrow, htext⟩
  obtain ⟨hlegal, hsign⟩ := Row.legal_fourDigits_iff.mp hrow
  obtain rfl : row = signed := Row.eq_of_text_eq hlegal hsigned (htext.trans (by decide))
  exact hsign (.number ['+', '0', '4', '1']) (by simp [signed, Row.spellings, Written.spellings]) rfl

end LegibleLog.Logfmt
