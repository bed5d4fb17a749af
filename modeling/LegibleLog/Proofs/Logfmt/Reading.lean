import LegibleLog.Proofs.Cuts
import LegibleLog.Proofs.Logfmt.Grammar
import Mathlib.Data.List.Basic

/-!
# Reading is the grammar

Each reader takes exactly what the grammar allows at the front of a text, and gives what that stands for.

* `readEscape_eq_ok_iff`, `readQuoted_eq_ok_iff`, `readToken_eq_ok_iff` — one statement for each reader;
* `decode_eq_ok_iff` — the pairs of a record are those of a row that looks like it.
-/

namespace LegibleLog.Logfmt

/-! ### Numbers of escapes -/

theorem lt_of_hexValue? {c : Char} {n : Nat} (h : Text.hexValue? c = some n) : n < 16 := by
  have hnat : ∀ a b : Char, a ≤ b → a.toNat ≤ b.toNat := fun _ _ h => h
  unfold Text.hexValue? at h
  split at h
  · next hdigit =>
    have hle := hnat _ _ hdigit.2
    simp only [Option.some.injEq, Char.reduceToNat] at h hle
    omega
  · split at h
    · next hlower =>
      have hle := hnat _ _ hlower.2
      simp only [Option.some.injEq, Char.reduceToNat] at h hle
      omega
    · split at h
      · next hupper =>
        have hle := hnat _ _ hupper.2
        simp only [Option.some.injEq, Char.reduceToNat] at h hle
        omega
      · cases h

theorem fourDigits?_eq_some {ds : List Char} {n : Nat} (h : fourDigits? ds = some n) :
    ds.length = 4 ∧ n < 0x10000 := by
  unfold fourDigits? at h
  split at h
  · next a b c d =>
    simp only [Option.bind_eq_bind, Option.bind_eq_some_iff, Option.pure_def, Option.some.injEq] at h
    obtain ⟨i, hi, j, hj, k, hk, l, hl, rfl⟩ := h
    have hi' := lt_of_hexValue? hi
    have hj' := lt_of_hexValue? hj
    have hk' := lt_of_hexValue? hk
    have hl' := lt_of_hexValue? hl
    exact ⟨rfl, by omega⟩
  · cases h

/-- A plus sign in front is read as a zero. -/
theorem hexNumber?_eq (ds : List Char) :
    hexNumber? ds = if ds.head? = some '+' then fourDigits? ('0' :: ds.tail) else fourDigits? ds := by
  have hzero : Text.hexValue? '0' = some 0 := by decide
  unfold hexNumber?
  split
  · next a b c d =>
    by_cases ha : a = '+'
    · subst ha
      simp [fourDigits?, hzero]
    · simp [fourDigits?, ha]
  · next hlen =>
    have hnone : ∀ es : List Char, es.length = ds.length → fourDigits? es = none := by
      intro es hes
      refine Option.eq_none_iff_forall_ne_some.mpr fun n hn => ?_
      have hfour : ds.length = 4 := hes.symm.trans (fourDigits?_eq_some hn).1
      obtain ⟨a, r, rfl⟩ := List.exists_cons_of_length_eq_add_one hfour
      obtain ⟨b, c, d, rfl⟩ := List.length_eq_three.mp (Nat.succ.inj hfour)
      exact hlen a b c d rfl
    cases ds with
    | nil => rfl
    | cons a r => rw [hnone ('0' :: (a :: r).tail) rfl, hnone (a :: r) rfl, ite_self]

theorem hexNumber?_eq_some {ds : List Char} {n : Nat} (h : hexNumber? ds = some n) :
    ds.length = 4 ∧ n < 0x10000 := by
  rw [hexNumber?_eq] at h
  split at h
  · next hsign =>
    obtain ⟨hlen, hn⟩ := fourDigits?_eq_some h
    obtain ⟨r, rfl⟩ := List.head?_eq_some_iff.mp hsign
    exact ⟨hlen, hn⟩
  · exact fourDigits?_eq_some h

theorem isValidChar_iff {n : Nat} (h : n < 0x10000) :
    n.isValidChar ↔ Text.isHighSurrogate n = false ∧ Text.isLowSurrogate n = false := by
  simp only [Nat.isValidChar, Text.isHighSurrogate, Text.isLowSurrogate, Bool.and_eq_false_iff,
    decide_eq_false_iff_not]
  omega

theorem readNumber_eq_ok_iff {cs r : List Char} {n : Nat} :
    readNumber cs = .ok (n, r) ↔ ∃ ds, hexNumber? ds = some n ∧ ds ++ r = cs := by
  unfold readNumber
  constructor
  · intro h
    split at h
    · next m hm =>
      simp only [Except.ok.injEq, Prod.mk.injEq] at h
      obtain ⟨rfl, rfl⟩ := h
      exact ⟨cs.take 4, hm, List.take_append_drop 4 cs⟩
    · cases h
  · rintro ⟨ds, hds, rfl⟩
    have hlen := (hexNumber?_eq_some hds).1
    rw [List.take_left' hlen, List.drop_left' hlen]
    simp only [hds]

/-! ### Characters of quoted values -/

theorem readNumbered_eq_ok_iff {cs r : List Char} {c : Char} :
    readNumbered cs = .ok (c, r) ↔
      ∃ s : Spelling, s.Legal hexNumber? ∧ s.char hexNumber? = c ∧ s.text ++ r = '\\' :: 'u' :: cs := by
  constructor
  · intro h
    unfold readNumbered at h
    split at h
    · cases h
    · next n rest hn =>
      obtain ⟨ds, hds, rfl⟩ := readNumber_eq_ok_iff.mp hn
      split at h
      · next hhigh =>
        split at h
        · split at h
          · cases h
          · next m rest' hm =>
            obtain ⟨ls, hls, rfl⟩ := readNumber_eq_ok_iff.mp hm
            split at h
            · next hlow =>
              simp only [Except.ok.injEq, Prod.mk.injEq] at h
              obtain ⟨rfl, rfl⟩ := h
              exact ⟨.pair ds ls, ⟨n, m, hds, hls, hhigh, hlow⟩, by simp [Spelling.char, hds, hls],
                by simp [Spelling.text]⟩
            · cases h
        · cases h
      · next hhigh =>
        split at h
        · cases h
        · next hlow =>
          simp only [Except.ok.injEq, Prod.mk.injEq] at h
          obtain ⟨rfl, rfl⟩ := h
          have hvalid := (isValidChar_iff (hexNumber?_eq_some hds).2).mpr
            ⟨Bool.eq_false_iff.mpr hhigh, Bool.eq_false_iff.mpr hlow⟩
          exact ⟨.number ds, ⟨n, hds, hvalid⟩, by simp [Spelling.char, hds], by simp [Spelling.text]⟩
  · rintro ⟨s, hs, rfl, htext⟩
    cases s with
    | plain c =>
      simp only [Spelling.text, List.singleton_append, List.cons.injEq] at htext
      exact absurd htext.1 hs.2
    | escape c =>
      simp only [Spelling.text, List.cons_append, List.nil_append, List.cons.injEq] at htext
      exact absurd htext.2.1 hs
    | number ds =>
      obtain ⟨n, hds, hvalid⟩ := hs
      obtain ⟨hhigh, hlow⟩ := (isValidChar_iff (hexNumber?_eq_some hds).2).mp hvalid
      simp only [Spelling.text, List.cons_append, List.cons.injEq, true_and] at htext
      simp [readNumbered, readNumber_eq_ok_iff.mpr ⟨ds, hds, htext⟩, hhigh, hlow, Spelling.char, hds]
    | pair hs' ls =>
      obtain ⟨h, l, hhs, hls, hhigh, hlow⟩ := hs
      simp only [Spelling.text, List.cons_append, List.append_assoc, List.cons.injEq, true_and] at htext
      simp [readNumbered, readNumber_eq_ok_iff.mpr ⟨hs', hhs, htext⟩, hhigh,
        readNumber_eq_ok_iff.mpr ⟨ls, hls, rfl⟩, hlow, Spelling.char, hhs, hls]

theorem readEscape_eq_ok_iff {cs r : List Char} {c : Char} :
    readEscape cs = .ok (c, r) ↔
      ∃ s : Spelling, s.Legal hexNumber? ∧ s.char hexNumber? = c ∧ s.text ++ r = '\\' :: cs := by
  constructor
  · intro h
    cases cs with
    | nil => cases h
    | cons letter tail =>
      by_cases hu : letter = 'u'
      · subst hu
        exact readNumbered_eq_ok_iff.mp h
      · rw [readEscape_of_ne hu] at h
        cases h
        exact ⟨.escape letter, hu, rfl, rfl⟩
  · rintro ⟨s, hs, rfl, htext⟩
    cases s with
    | plain c =>
      simp only [Spelling.text, List.singleton_append, List.cons.injEq] at htext
      exact absurd htext.1 hs.2
    | escape c =>
      simp only [Spelling.text, List.cons_append, List.nil_append, List.cons.injEq, true_and] at htext
      subst htext
      exact readEscape_of_ne hs r
    | number ds =>
      have htext' := htext
      simp only [Spelling.text, List.cons_append, List.cons.injEq, true_and] at htext'
      subst htext'
      exact readNumbered_eq_ok_iff.mpr ⟨.number ds, hs, rfl, htext⟩
    | pair hs' ls =>
      have htext' := htext
      simp only [Spelling.text, List.cons_append, List.cons.injEq, true_and] at htext'
      subst htext'
      exact readNumbered_eq_ok_iff.mpr ⟨.pair hs' ls, hs, rfl, htext⟩

theorem plain_of_text_eq {s : Spelling} {c : Char} {r cs : List Char} (hc : c ≠ '\\') (h : s.text ++ r = c :: cs) :
    s = .plain c ∧ r = cs := by
  cases s with
  | plain d =>
    simp only [Spelling.text, List.singleton_append, List.cons.injEq] at h
    obtain ⟨rfl, rfl⟩ := h
    exact ⟨rfl, rfl⟩
  | escape d => exact absurd (List.cons.inj h).1.symm hc
  | number ds => exact absurd (List.cons.inj h).1.symm hc
  | pair hs ls => exact absurd (List.cons.inj h).1.symm hc

theorem readQuoted_plain {c : Char} (hquote : c ≠ '"') (hback : c ≠ '\\') (done r : List Char) :
    readQuoted done (c :: r) = readQuoted (c :: done) r := by
  rw [readQuoted]
  · exact hquote
  · exact hback

theorem readQuoted_eq_ok_iff {done cs r : List Char} {value : String} :
    readQuoted done cs = .ok (value, r) ↔
      ∃ items : List Spelling, (∀ s ∈ items, s.Legal hexNumber?) ∧ items.flatMap Spelling.text ++ '"' :: r = cs ∧
        String.ofList (done.reverse ++ items.map (Spelling.char hexNumber?)) = value := by
  constructor
  · intro h
    fun_induction readQuoted done cs with
    | case1 => cases h
    | case2 done r' =>
      simp only [Except.ok.injEq, Prod.mk.injEq] at h
      obtain ⟨rfl, rfl⟩ := h
      exact ⟨[], List.forall_mem_nil _, rfl, by simp⟩
    | case3 done r' c rest hc ih =>
      obtain ⟨s, hs, rfl, htext⟩ := readEscape_eq_ok_iff.mp hc
      obtain ⟨items, hitems, rfl, rfl⟩ := ih h
      refine ⟨s :: items, List.forall_mem_cons.mpr ⟨hs, hitems⟩, ?_, by simp⟩
      rw [List.flatMap_cons, List.append_assoc, htext]
    | case4 => cases h
    | case5 done c r' hquote hback ih =>
      obtain ⟨items, hitems, rfl, rfl⟩ := ih h
      exact ⟨.plain c :: items, List.forall_mem_cons.mpr ⟨⟨hquote, hback⟩, hitems⟩, rfl, by simp [Spelling.char]⟩
  · rintro ⟨items, hitems, rfl, rfl⟩
    induction items generalizing done with
    | nil => rw [List.flatMap_nil, List.nil_append, readQuoted, List.map_nil, List.append_nil]
    | cons s items ih =>
      obtain ⟨hs, hitems⟩ := List.forall_mem_cons.mp hitems
      have hnext : readQuoted (s.char hexNumber? :: done) (items.flatMap Spelling.text ++ '"' :: r) =
          .ok (String.ofList ((s.char hexNumber? :: done).reverse ++ items.map (Spelling.char hexNumber?)), r) :=
        ih hitems
      rw [List.reverse_cons, List.append_assoc, List.singleton_append, ← List.map_cons] at hnext
      rw [← hnext, List.flatMap_cons, List.append_assoc]
      by_cases hplain : ∃ c, s = .plain c
      · obtain ⟨c, rfl⟩ := hplain
        exact readQuoted_plain hs.1 hs.2 done _
      · obtain ⟨cs, hcs⟩ : ∃ cs, s.text ++ (items.flatMap Spelling.text ++ '"' :: r) = '\\' :: cs := by
          cases s with
          | plain c => exact absurd ⟨c, rfl⟩ hplain
          | _ => exact ⟨_, rfl⟩
        have hread := readEscape_eq_ok_iff.mpr ⟨s, hs, rfl, hcs⟩
        rw [hcs, readQuoted]
        split
        · next hc =>
          rw [hread] at hc
          cases hc
          rfl
        · next he =>
          rw [hread] at he
          cases he

/-! ### Values and tokens -/

/-- A token may end here: nothing follows, or a blank. -/
def Ends (r : List Char) : Prop := ∀ c ∈ r.head?, Text.isBlank c = true

theorem isBare_iff {c : Char} : isBare c = true ↔ Text.isBlank c = false ∧ c ≠ '=' ∧ c ≠ '"' := by
  simp [isBare, and_assoc]

theorem Ends.not_bare {r : List Char} (h : Ends r) : ∀ c ∈ r.head?, isBare c = false := by
  intro c hc
  simp [isBare, h c hc]

theorem ends_nil : Ends [] := fun _ h => nomatch h

theorem ends_cons_iff {c : Char} {r : List Char} : Ends (c :: r) ↔ Text.isBlank c = true := by
  simp [Ends]

theorem readValue_eq_ok_iff {key value : String} {cs r : List Char} :
    readValue key cs = .ok (value, r) ↔
      ∃ w : Written, w.Legal hexNumber? ∧ w.text ++ r = cs ∧ w.value hexNumber? = value ∧ Ends r := by
  constructor
  · intro h
    unfold readValue at h
    split at h
    · split at h
      · cases h
      · next v rest hq =>
        obtain ⟨items, hitems, rfl, rfl⟩ := readQuoted_eq_ok_iff.mp hq
        refine ⟨.quoted items, hitems, ?_⟩
        cases rest with
        | nil =>
          simp only [Except.ok.injEq, Prod.mk.injEq] at h
          obtain ⟨rfl, rfl⟩ := h
          exact ⟨by simp [Written.text], rfl, ends_nil⟩
        | cons c rest =>
          simp only at h
          split at h
          · next hc =>
            simp only [Except.ok.injEq, Prod.mk.injEq] at h
            obtain ⟨rfl, rfl⟩ := h
            exact ⟨by simp [Written.text], rfl, ends_cons_iff.mpr hc⟩
          · cases h
    · refine ⟨.bare (cs.takeWhile isBare), fun _ => List.mem_takeWhile_imp, ?_⟩
      have hsplit := List.takeWhile_append_dropWhile (p := isBare) (l := cs)
      split at h
      · next hdrop =>
        simp only [Except.ok.injEq, Prod.mk.injEq] at h
        obtain ⟨rfl, rfl⟩ := h
        rw [hdrop] at hsplit
        exact ⟨hsplit, rfl, ends_nil⟩
      · next c rest hdrop =>
        split at h
        · next hc =>
          simp only [Except.ok.injEq, Prod.mk.injEq] at h
          obtain ⟨rfl, rfl⟩ := h
          rw [hdrop] at hsplit
          exact ⟨hsplit, rfl, ends_cons_iff.mpr hc⟩
        · cases h
  · rintro ⟨w, hw, rfl, rfl, hr⟩
    cases w with
    | bare bs =>
      obtain ⟨htake, hdrop⟩ := takeWhile_append_eq hw hr.not_bare
      unfold readValue
      split
      · next r' hquote =>
        -- a bare value and what follows it do not begin with a quote
        have hhead : isBare '"' = false := by decide
        cases bs with
        | nil =>
          obtain rfl : r = '"' :: r' := hquote
          exact absurd (ends_cons_iff.mp hr) (by decide)
        | cons b bs =>
          obtain ⟨rfl, -⟩ := List.cons.inj hquote
          exact absurd (hw _ List.mem_cons_self) (by simp [hhead])
      · simp only [Written.text, htake, hdrop, Written.value]
        cases r with
        | nil => rfl
        | cons c r => exact if_pos (ends_cons_iff.mp hr)
    | quoted items =>
      have hq : readQuoted [] (items.flatMap Spelling.text ++ '"' :: r) = .ok (_, r) :=
        readQuoted_eq_ok_iff.mpr ⟨items, hw, rfl, rfl⟩
      simp only [Written.text, List.cons_append, List.append_assoc, List.nil_append, readValue, hq]
      cases r with
      | nil => rfl
      | cons c r => exact if_pos (ends_cons_iff.mp hr)

/-- A key is read up to its equals sign. -/
theorem readToken_eq_ok_iff {cs r : List Char} {pair : String × String} :
    readToken cs = .ok (pair, r) ↔
      ∃ t : Token, t.Legal hexNumber? ∧ t.text ++ r = cs ∧ t.pair hexNumber? = pair ∧ Ends r := by
  constructor
  · intro h
    have hsplit := List.takeWhile_append_dropWhile (p := isBare) (l := cs)
    unfold readToken at h
    dsimp only at h
    split at h
    · next rest hdrop =>
      split at h
      · cases h
      · next hkey =>
        split at h
        · next value after hv =>
          simp only [Except.ok.injEq, Prod.mk.injEq] at h
          obtain ⟨rfl, rfl⟩ := h
          obtain ⟨w, hw, rfl, rfl, hends⟩ := readValue_eq_ok_iff.mp hv
          refine ⟨⟨cs.takeWhile isBare, w⟩, ⟨?_, fun _ => List.mem_takeWhile_imp, hw⟩, ?_, rfl, hends⟩
          · rintro (hnil : cs.takeWhile isBare = [])
            rw [hnil] at hkey
            exact hkey rfl
          · rw [Token.text, List.append_assoc, List.cons_append, ← hdrop, hsplit]
        · cases h
    · cases h
    · cases h
  · rintro ⟨t, ht, rfl, rfl, hr⟩
    have hequals : ∀ c ∈ ('=' :: (t.value.text ++ r)).head?, isBare c = false := by
      simp [isBare]
    obtain ⟨htake, hdrop⟩ := takeWhile_append_eq ht.key_bare hequals
    have hkey : (String.ofList t.key).isEmpty = false := by
      simpa [String.isEmpty_iff] using ht.key_ne_nil
    have hv : readValue (String.ofList t.key) (t.value.text ++ r) = .ok (t.value.value hexNumber?, r) :=
      readValue_eq_ok_iff.mpr ⟨t.value, ht.value_legal, rfl, rfl, hr⟩
    simp [readToken, Token.text, List.append_assoc, List.cons_append, htake, hdrop, hkey, hv, Token.pair]

/-! ### Records -/

namespace Token

variable {number? : List Char → Option Nat} {t : Token}

/-- A token begins with a character that is not blank. -/
theorem Legal.text_eq_cons (h : t.Legal number?) : ∃ c r, t.text = c :: r ∧ Text.isBlank c = false := by
  obtain ⟨c, r, hkey⟩ := List.exists_cons_of_ne_nil h.key_ne_nil
  have hbare : isBare c = true := h.key_bare c (hkey ▸ List.mem_cons_self)
  exact ⟨c, r ++ '=' :: t.value.text, by rw [Token.text, hkey, List.cons_append], (isBare_iff.mp hbare).1⟩

end Token

namespace Row

variable {number? : List Char → Option Nat} {row : Row}

theorem text_cons (gap : List Char) (t : Token) (tokens : List (List Char × Token)) (after : List Char) :
    Row.text ⟨(gap, t) :: tokens, after⟩ = gap ++ (t.text ++ Row.text ⟨tokens, after⟩) := by
  simp [Row.text]

/-- The row without its first token. -/
theorem Legal.rest {gap : List Char} {t : Token} {tokens : List (List Char × Token)} {after : List Char}
    (h : Row.Legal number? ⟨(gap, t) :: tokens, after⟩) : Row.Legal number? ⟨tokens, after⟩ where
  tokens := fun p hp => h.tokens p (List.mem_cons_of_mem _ hp)
  apart := fun p hp => h.apart p (List.mem_of_mem_tail hp)
  after := h.after

/-- What follows the first token begins with a blank, if there is more. -/
theorem Legal.ends_rest {gap : List Char} {t : Token} {tokens : List (List Char × Token)} {after : List Char}
    (h : Row.Legal number? ⟨(gap, t) :: tokens, after⟩) : Ends (Row.text ⟨tokens, after⟩) := by
  cases tokens with
  | nil =>
    cases after with
    | nil => exact ends_nil
    | cons c after => exact ends_cons_iff.mpr (h.after c List.mem_cons_self)
  | cons p tokens =>
    obtain ⟨gap', t'⟩ := p
    obtain ⟨c, r, rfl⟩ := List.exists_cons_of_ne_nil (h.apart (gap', t') List.mem_cons_self)
    exact ends_cons_iff.mpr ((h.tokens (c :: r, t') (by simp)).1 c List.mem_cons_self)

theorem Legal.trimStart_nil {after : List Char} (h : Row.Legal number? ⟨[], after⟩) :
    Text.trimStart (Row.text ⟨[], after⟩) = [] := by
  simpa [Row.text, Text.trimStart, List.dropWhile_eq_nil_iff] using h.after

/-- The blanks before the first token are those that the text begins with. -/
theorem Legal.blanks_cons {gap : List Char} {t : Token} {tokens : List (List Char × Token)} {after : List Char}
    (h : Row.Legal number? ⟨(gap, t) :: tokens, after⟩) :
    (Row.text ⟨(gap, t) :: tokens, after⟩).takeWhile Text.isBlank = gap ∧
      Text.trimStart (Row.text ⟨(gap, t) :: tokens, after⟩) = t.text ++ Row.text ⟨tokens, after⟩ := by
  obtain ⟨hgap, ht⟩ := h.tokens (gap, t) List.mem_cons_self
  obtain ⟨c, r, htext, hc⟩ := ht.text_eq_cons
  have hneg : ¬ Text.isBlank c = true := by simp [hc]
  rw [Row.text_cons, Text.trimStart, List.takeWhile_append_of_pos hgap, List.dropWhile_append_of_pos hgap, htext,
    List.cons_append, List.takeWhile_cons_of_neg hneg, List.dropWhile_cons_of_neg hneg]
  exact ⟨List.append_nil gap, rfl⟩

end Row

theorem decodeFrom_text {row : Row} (h : row.Legal hexNumber?) (done : List (String × String)) :
    decodeFrom done row.text = .ok (done.reverse ++ row.pairs hexNumber?) := by
  obtain ⟨tokens, after⟩ := row
  induction tokens generalizing done with
  | nil =>
    rw [decodeFrom]
    split
    · simp [Row.pairs]
    · next hcons =>
      rw [h.trimStart_nil] at hcons
      cases hcons
  | cons p tokens ih =>
    obtain ⟨gap, t⟩ := p
    have ht := (h.tokens (gap, t) List.mem_cons_self).2
    obtain ⟨c, r, htext, -⟩ := ht.text_eq_cons
    have hread : readToken (t.text ++ Row.text ⟨tokens, after⟩) = .ok (t.pair hexNumber?, Row.text ⟨tokens, after⟩) :=
      readToken_eq_ok_iff.mpr ⟨t, ht, rfl, rfl, h.ends_rest⟩
    have htrim := h.blanks_cons.2
    rw [decodeFrom]
    split
    · next hnil => simp [htrim, htext] at hnil
    · next d s hcons =>
      rw [htrim] at hcons
      rw [← hcons]
      split
      · next he =>
        rw [hread] at he
        cases he
      · next hok =>
        rw [hread] at hok
        cases hok
        rw [ih _ h.rest, Row.pairs, Row.pairs, List.map_cons, List.reverse_cons, List.append_assoc]
        rfl

theorem exists_row_of_decodeFrom {done pairs : List (String × String)} {cs : List Char}
    (h : decodeFrom done cs = .ok pairs) :
    ∃ row : Row, row.Legal hexNumber? ∧ row.text = cs ∧ pairs = done.reverse ++ row.pairs hexNumber? := by
  fun_induction decodeFrom done cs with
  | case1 done cs hc =>
    cases h
    refine ⟨⟨[], cs⟩, ⟨List.forall_mem_nil _, List.forall_mem_nil _, ?_⟩, rfl, by simp [Row.pairs]⟩
    simpa [Text.trimStart, List.dropWhile_eq_nil_iff] using hc
  | case2 => cases h
  | case3 done cs c r hc pair rest ht ih =>
    obtain ⟨⟨tokens, after⟩, hrow, rfl, rfl⟩ := ih h
    obtain ⟨t, htoken, htext, rfl, hends⟩ := readToken_eq_ok_iff.mp ht
    refine ⟨⟨(cs.takeWhile Text.isBlank, t) :: tokens, after⟩, ⟨?_, ?_, hrow.after⟩, ?_, by simp [Row.pairs]⟩
    · exact List.forall_mem_cons.mpr ⟨⟨fun _ => List.mem_takeWhile_imp, htoken⟩, hrow.tokens⟩
    · -- the token ends with nothing or a blank after it, and no token begins with a blank
      intro p hp
      cases tokens with
      | nil => cases hp
      | cons next tokens =>
        rcases List.mem_cons.mp hp with rfl | hp
        · intro hgap
          obtain ⟨d, s, hd, hblank⟩ := (hrow.tokens p List.mem_cons_self).2.text_eq_cons
          have hhead := hends d
          rw [Row.text_cons, hgap, List.nil_append, hd, List.cons_append] at hhead
          rw [hhead rfl] at hblank
          cases hblank
        · exact hrow.apart p hp
    · rw [Row.text_cons, htext, ← hc]
      exact List.takeWhile_append_dropWhile

/-- **Reading is the grammar.** A text is decoded to the pairs of the rows that look like it. -/
theorem decode_eq_ok_iff {cs : List Char} {pairs : List (String × String)} :
    decode cs = .ok pairs ↔ ∃ row : Row, row.Legal hexNumber? ∧ row.text = cs ∧ row.pairs hexNumber? = pairs := by
  constructor
  · intro h
    obtain ⟨row, hrow, htext, rfl⟩ := exists_row_of_decodeFrom h
    exact ⟨row, hrow, htext, rfl⟩
  · rintro ⟨row, hrow, rfl, rfl⟩
    exact decodeFrom_text hrow []

end LegibleLog.Logfmt
