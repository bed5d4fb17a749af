import LegibleLog.Proofs.Ascii
import LegibleLog.Proofs.Logfmt.Reading

/-!
# Blanks and quotes in logfmt records

A record read from somewhere in its middle is a record again, or goes on inside a quoted value.

* `InQuotes v` — `v` goes on inside a quoted value;
* `Row.Legal.after_blank` — what follows a blank of a record;
* `Row.Legal.first_quote` — a value stands behind the first quote of a record;
* `InQuotes.first_quote` — the first quote that no backslash stands before ends the value;
* `Row.Legal.equals_before_blank` — an equals sign stands before the first blank after a key.
-/

namespace LegibleLog.Logfmt

/-- A text that goes on inside a quoted value: the rest of the value, its closing quote, and the rest of the record. -/
def InQuotes (v : List Char) : Prop :=
  ∃ (items : List Spelling) (row : Row), (∀ s ∈ items, s.Legal hexNumber?) ∧ row.Legal hexNumber? ∧ Ends row.text ∧
    v = items.flatMap Spelling.text ++ '"' :: row.text

variable {b c : Char} {u v : List Char}

/-! ### Blanks -/

theorem ne_of_blank (hb : Text.isBlank b = true) (hc : Text.isBlank c = false) : b ≠ c := by
  rintro rfl
  rw [hb] at hc
  cases hc

theorem not_bare_of_blank (hb : Text.isBlank b = true) {cs : List Char} (hcs : ∀ c ∈ cs, isBare c = true) : b ∉ cs :=
  fun hmem => absurd rfl (ne_of_blank hb (isBare_iff.mp (hcs b hmem)).1)

theorem hexValue?_of_blank (hb : Text.isBlank b = true) : Text.hexValue? b = none := by
  refine Option.eq_none_iff_forall_ne_some.mpr fun n hn => ?_
  obtain ⟨hlow, hhigh⟩ := Text.visible_of_hexValue? hn
  exact absurd rfl (ne_of_blank hb (Text.isBlank_of_visible hlow hhigh))

theorem notMem_of_fourDigits? (hb : Text.hexValue? b = none) {ds : List Char} {n : Nat}
    (h : fourDigits? ds = some n) : b ∉ ds := by
  unfold fourDigits? at h
  split at h
  · next p q r s =>
    simp only [Option.bind_eq_bind, Option.bind_eq_some_iff] at h
    obtain ⟨_, hp, _, hq, _, hr, _, hs, -⟩ := h
    have hne : ∀ {c : Char} {m : Nat}, Text.hexValue? c = some m → b ≠ c := by
      rintro c m hc rfl
      rw [hb] at hc
      cases hc
    simp [hne hp, hne hq, hne hr, hne hs]
  · cases h

theorem notMem_of_hexNumber? (hb : Text.isBlank b = true) {ds : List Char} {n : Nat}
    (h : hexNumber? ds = some n) : b ∉ ds := by
  have hnone := hexValue?_of_blank hb
  rw [hexNumber?_eq] at h
  split at h
  · next hsign =>
    obtain ⟨r, rfl⟩ := List.head?_eq_some_iff.mp hsign
    have hr : b ∉ '0' :: r := notMem_of_fourDigits? hnone h
    rw [List.mem_cons, not_or] at hr ⊢
    exact ⟨ne_of_blank hb (by decide), hr.2⟩
  · exact notMem_of_fourDigits? hnone h

/-- A blank ends the spelling in which it stands. -/
theorem Spelling.exists_of_blank_mem (hb : Text.isBlank b = true) {s : Spelling} (hs : s.Legal hexNumber?)
    (h : b ∈ s.text) : ∃ front, s.text = front ++ [b] ∧ b ∉ front := by
  have hback : b ≠ '\\' := ne_of_blank hb (by decide)
  have hu : b ≠ 'u' := ne_of_blank hb (by decide)
  cases s with
  | plain c =>
    obtain rfl := List.mem_singleton.mp h
    exact ⟨[], rfl, List.not_mem_nil⟩
  | escape c =>
    obtain rfl : b = c := by simpa [Spelling.text, hback] using h
    exact ⟨['\\'], rfl, by simpa using hback⟩
  | number ds =>
    obtain ⟨n, hds, -⟩ := hs
    simp [Spelling.text, hback, hu, notMem_of_hexNumber? hb hds] at h
  | pair hs' ls =>
    obtain ⟨_, _, hhs, hls, -⟩ := hs
    simp [Spelling.text, hback, hu, notMem_of_hexNumber? hb hhs, notMem_of_hexNumber? hb hls] at h

/-- What follows a blank inside a quoted value, or behind it. -/
theorem quoted_after_blank (hb : Text.isBlank b = true) {items : List Spelling} {rest : List Char}
    (hitems : ∀ s ∈ items, s.Legal hexNumber?) (h : items.flatMap Spelling.text ++ '"' :: rest = u ++ b :: v) :
    (∃ more : List Spelling, (∀ s ∈ more, s.Legal hexNumber?) ∧ v = more.flatMap Spelling.text ++ '"' :: rest) ∨
      ∃ u', rest = u' ++ b :: v := by
  induction items generalizing u with
  | nil =>
    cases u with
    | nil => exact absurd (List.cons.inj h).1.symm (ne_of_blank hb (by decide))
    | cons c u => exact .inr ⟨u, (List.cons.inj h).2⟩
  | cons s items ih =>
    obtain ⟨hs, hitems⟩ := List.forall_mem_cons.mp hitems
    rw [List.flatMap_cons, List.append_assoc] at h
    by_cases hmem : b ∈ s.text
    · obtain ⟨front, hfront, hnot⟩ := Spelling.exists_of_blank_mem hb hs hmem
      rw [hfront, List.append_assoc, List.singleton_append] at h
      obtain ⟨more, rfl, hmore⟩ := cut_behind hnot h
      cases more with
      | nil => exact .inl ⟨items, hitems, (List.cons.inj hmore).2.symm⟩
      | cons c more => exact ih hitems (List.cons.inj hmore).2
    · obtain ⟨more, rfl, hmore⟩ := cut_behind hmem h
      exact ih hitems hmore

/-- **What follows a blank of a record** is a record, or goes on inside a quoted value. -/
theorem Row.Legal.after_blank (hb : Text.isBlank b = true) {row : Row} (hrow : row.Legal hexNumber?)
    (h : row.text = u ++ b :: v) : (∃ row' : Row, row'.Legal hexNumber? ∧ row'.text = v) ∨ InQuotes v := by
  obtain ⟨tokens, after⟩ := row
  induction tokens generalizing u with
  | nil =>
    obtain rfl : after = u ++ b :: v := h
    refine .inl ⟨⟨[], v⟩, ⟨List.forall_mem_nil _, List.forall_mem_nil _, fun c hc => ?_⟩, rfl⟩
    exact hrow.after c (by simp [hc])
  | cons p tokens ih =>
    obtain ⟨gap, t⟩ := p
    obtain ⟨hgap, ht⟩ := hrow.tokens (gap, t) List.mem_cons_self
    rw [Row.text_cons] at h
    rcases List.append_eq_append_iff.mp h with ⟨u', rfl, hu'⟩ | ⟨gap', rfl, hgap'⟩
    · -- the blank stands behind the blanks before the token
      have hequals : b ∉ t.key ++ ['='] := by
        rw [List.mem_append, List.mem_singleton, not_or]
        exact ⟨not_bare_of_blank hb ht.key_bare, ne_of_blank hb (by decide)⟩
      rw [Token.text, List.append_cons, List.append_assoc] at hu'
      obtain ⟨w, rfl, hw⟩ := cut_behind hequals hu'
      have hvalue := ht.value_legal
      cases hwritten : t.value with
      | bare cs =>
        rw [hwritten] at hw hvalue
        obtain ⟨w', rfl, hrest⟩ := cut_behind (not_bare_of_blank hb hvalue) hw
        exact ih hrow.rest hrest
      | quoted items =>
        rw [hwritten, Written.text, List.cons_append, List.append_assoc, List.singleton_append] at hw
        rw [hwritten] at hvalue
        cases w with
        | nil => exact absurd (List.cons.inj hw).1.symm (ne_of_blank hb (by decide))
        | cons c w =>
          rcases quoted_after_blank hb hvalue (List.cons.inj hw).2 with ⟨more, hmore, rfl⟩ | ⟨w', hrest⟩
          · exact .inr ⟨more, ⟨tokens, after⟩, hmore, hrow.rest, hrow.ends_rest, rfl⟩
          · exact ih hrow.rest hrest
    · -- the blank is one of them, or the token begins with it
      cases gap' with
      | nil =>
        obtain ⟨c, r, htext, hc⟩ := ht.text_eq_cons
        rw [htext] at hgap'
        exact absurd (List.cons.inj hgap').1 (ne_of_blank hb hc)
      | cons c gap' =>
        obtain ⟨rfl, rfl⟩ := List.cons.inj hgap'
        refine .inl ⟨⟨(gap', t) :: tokens, after⟩, ⟨?_, hrow.apart, hrow.after⟩, Row.text_cons _ _ _ _⟩
        refine List.forall_mem_cons.mpr ⟨⟨fun c hc => hgap c (by simp [hc]), ht⟩, hrow.rest.tokens⟩

/-! ### Quotes -/

theorem quote_notMem_of_bare {cs : List Char} (hcs : ∀ c ∈ cs, isBare c = true) : '"' ∉ cs :=
  fun hmem => absurd rfl (isBare_iff.mp (hcs _ hmem)).2.2

/-- **A value stands behind the first quote of a record**, which stands behind an equals sign. -/
theorem Row.Legal.first_quote {row : Row} (hrow : row.Legal hexNumber?) (hu : '"' ∉ u) (h : row.text = u ++ '"' :: v) :
    u.getLast? = some '=' ∧ InQuotes v := by
  obtain ⟨tokens, after⟩ := row
  induction tokens generalizing u with
  | nil =>
    obtain rfl : after = u ++ '"' :: v := h
    exact absurd (hrow.after '"' (by simp)) (by decide)
  | cons p tokens ih =>
    obtain ⟨gap, t⟩ := p
    obtain ⟨hgap, ht⟩ := hrow.tokens (gap, t) List.mem_cons_self
    have hfront : '"' ∉ gap ++ (t.key ++ ['=']) := by
      rw [List.mem_append, List.mem_append, List.mem_singleton, not_or, not_or]
      exact ⟨fun hmem => absurd (hgap _ hmem) (by decide), quote_notMem_of_bare ht.key_bare, by decide⟩
    rw [Row.text_cons, Token.text, List.append_cons, List.append_assoc, ← List.append_assoc gap] at h
    obtain ⟨w, rfl, hw⟩ := cut_behind hfront h
    have hvalue := ht.value_legal
    cases hwritten : t.value with
    | bare cs =>
      rw [hwritten] at hw hvalue
      obtain ⟨w', rfl, hrest⟩ := cut_behind (quote_notMem_of_bare hvalue) hw
      obtain ⟨hlast, hquotes⟩ := ih (fun hmem => hu (by simp [hmem])) hrow.rest hrest
      refine ⟨?_, hquotes⟩
      rw [← List.append_assoc, List.getLast?_append, hlast]
      rfl
    | quoted items =>
      rw [hwritten, Written.text, List.cons_append, List.append_assoc, List.singleton_append] at hw
      rw [hwritten] at hvalue
      have hw' : [] ++ '"' :: (items.flatMap Spelling.text ++ '"' :: Row.text ⟨tokens, after⟩) = w ++ '"' :: v := hw
      obtain ⟨rfl, rfl⟩ := cut_unique List.not_mem_nil (fun hmem => hu (List.mem_append_right _ hmem)) hw'
      exact ⟨by simp, items, ⟨tokens, after⟩, hvalue, hrow.rest, hrow.ends_rest, rfl⟩

/-- **The first quote that no backslash stands before ends a quoted value.** -/
theorem InQuotes.first_quote (h : InQuotes (u ++ '"' :: v)) (hu : ∀ c ∈ u, c ≠ '"' ∧ c ≠ '\\') :
    ∃ row : Row, row.Legal hexNumber? ∧ Ends v ∧ row.text = v := by
  obtain ⟨items, row, hitems, hrow, hends, h⟩ := h
  induction items generalizing u with
  | nil =>
    have h' : u ++ '"' :: v = [] ++ '"' :: row.text := h
    obtain ⟨rfl, rfl⟩ := cut_unique (fun hmem => absurd rfl (hu _ hmem).1) List.not_mem_nil h'
    exact ⟨row, hrow, hends, rfl⟩
  | cons s items ih =>
    obtain ⟨hs, hitems⟩ := List.forall_mem_cons.mp hitems
    rw [List.flatMap_cons, List.append_assoc] at h
    cases u with
    | nil =>
      obtain ⟨rfl, -⟩ := plain_of_text_eq (by decide) h.symm
      exact absurd rfl hs.1
    | cons c u =>
      obtain ⟨hc, hu⟩ := List.forall_mem_cons.mp hu
      obtain ⟨-, hrest⟩ := plain_of_text_eq hc.2 h.symm
      exact ih hu hitems hrest.symm

/-! ### Equals signs -/

/-- **An equals sign stands before the first blank behind a key.** -/
theorem Row.Legal.equals_before_blank (hb : Text.isBlank b = true) {row : Row} (hrow : row.Legal hexNumber?)
    (hc : Text.isBlank c = false) (h : row.text = c :: u ++ b :: v) : '=' ∈ c :: u := by
  obtain ⟨tokens, after⟩ := row
  cases tokens with
  | nil =>
    have hafter : after = c :: (u ++ b :: v) := h
    exact absurd (hrow.after c (hafter ▸ List.mem_cons_self)) (by simp [hc])
  | cons p tokens =>
    obtain ⟨gap, t⟩ := p
    obtain ⟨hgap, ht⟩ := hrow.tokens (gap, t) List.mem_cons_self
    rw [Row.text_cons] at h
    cases gap with
    | cons d gap =>
      obtain ⟨rfl, -⟩ := List.cons.inj h
      exact absurd (hgap d List.mem_cons_self) (by simp [hc])
    | nil =>
      rw [List.nil_append, Token.text, List.append_assoc] at h
      obtain ⟨more, hmore, hrest⟩ := cut_behind (not_bare_of_blank hb ht.key_bare) h
      rw [hmore]
      cases more with
      | nil => exact absurd (List.cons.inj hrest).1.symm (ne_of_blank hb (by decide))
      | cons d more =>
        obtain ⟨rfl, -⟩ := List.cons.inj hrest
        exact List.mem_append_right _ List.mem_cons_self

/-- A record without an equals sign is blank. -/
theorem Row.Legal.blank_of_equals_notMem {row : Row} (hrow : row.Legal hexNumber?) (h : '=' ∉ row.text) :
    ∀ c ∈ row.text, Text.isBlank c = true := by
  obtain ⟨tokens, after⟩ := row
  cases tokens with
  | nil => exact hrow.after
  | cons p tokens =>
    refine absurd ?_ h
    rw [Row.text_cons, Token.text]
    simp

end LegibleLog.Logfmt
