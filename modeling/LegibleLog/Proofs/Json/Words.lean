import LegibleLog.Json.Text
import LegibleLog.Proofs.Ascii

/-!
# Where the words of a JSON text end

* `Word` — what one word looks like: plain characters, or a string between quotes; `word_of_read?` says that the reader
  takes such a word;
* `tokens?_cases` — the words of a text, one at a time;
* `tokens?_after_tab` — a tab stands between words, so that the words after it are words of the whole text;
* `exists_string_of_tokens?` — the first string of a text, before which there is neither a quote nor a backslash nor an
  equals sign;
* `isBlank_or_visible_of_tokens?` — a text with words has no control characters but blanks.
-/

namespace LegibleLog.Json

/-! ### Numbers -/

/-- A character that is neither a control character nor a quote, a backslash or an equals sign. -/
def IsPlain (c : Char) : Prop := 0x20 ≤ c.toNat ∧ c ≠ '"' ∧ c ≠ '\\' ∧ c ≠ '='

instance : DecidablePred IsPlain := fun c => by
  unfold IsPlain
  infer_instance

theorem isPlain_of_isDigit {c : Char} (h : c.isDigit = true) : IsPlain c := by
  obtain ⟨hlow, hhigh⟩ := Text.toNat_of_isDigit h
  refine ⟨by omega, ?_, ?_, ?_⟩
  · rintro rfl
    exact absurd hlow (by decide)
  · rintro rfl
    exact absurd hhigh (by decide)
  · rintro rfl
    exact absurd hhigh (by decide)

theorem takes_readWhole? {cs ds rest : List Char} (h : readWhole? cs = some (ds, rest)) : Takes IsPlain cs rest := by
  unfold readWhole? at h
  split at h
  · split at h
    · cases h
    · cases h
      exact .cons (by decide) (.refl _ _)
  · dsimp only at h
    split at h
    · cases h
    · cases h
      exact .dropWhile (fun _ => isPlain_of_isDigit) cs

theorem takes_readDecimals? {cs ds rest : List Char} (h : readDecimals? cs = some (ds, rest)) :
    Takes IsPlain cs rest := by
  unfold readDecimals? at h
  split at h
  · dsimp only at h
    split at h
    · cases h
    · cases h
      exact .cons (by decide) (.dropWhile (fun _ => isPlain_of_isDigit) _)
  · cases h
    exact .refl _ _

theorem takes_splitSign (cs : List Char) : Takes IsPlain cs (Decimal.splitSign cs).2 := by
  unfold Decimal.splitSign
  split
  · exact .cons (by decide) (.refl _ _)
  · exact .cons (by decide) (.refl _ _)
  · exact .refl _ _

theorem takes_readPower? {cs rest : List Char} {power : Option (Bool × List Char)}
    (h : readPower? cs = some (power, rest)) : Takes IsPlain cs rest := by
  unfold readPower? at h
  split at h
  · next c r =>
    split at h
    · next hc =>
      have hplain : IsPlain c := by
        rcases Bool.or_eq_true_iff.mp hc with hc | hc
        · rw [eq_of_beq hc]
          decide
        · rw [eq_of_beq hc]
          decide
      dsimp only at h
      split at h
      · cases h
      · cases h
        exact .cons hplain ((takes_splitSign r).trans (.dropWhile (fun _ => isPlain_of_isDigit) _))
    · cases h
      exact .refl _ _
  · cases h
    exact .refl _ _

theorem takes_readNumber? {cs rest : List Char} {s : Scalar} (h : readNumber? cs = some (s, rest)) :
    Takes IsPlain cs rest := by
  have hminus : Takes IsPlain cs (splitMinus cs).2 := by
    unfold splitMinus
    split
    · exact .cons (by decide) (.refl _ _)
    · exact .refl _ _
  unfold readNumber? at h
  split at h
  · next parts after hparts =>
    simp only [Option.map_eq_some_iff, Prod.mk.injEq] at h
    obtain ⟨_, _, _, rfl⟩ := h
    simp only [readParts?, Option.bind_eq_bind, Option.bind_eq_some_iff, Option.pure_def, Option.some.injEq,
      Prod.mk.injEq, Prod.exists] at hparts
    obtain ⟨_, _, hwhole, _, _, hdecimals, _, _, hpower, -, rfl⟩ := hparts
    exact hminus.trans ((takes_readWhole? hwhole).trans
      ((takes_readDecimals? hdecimals).trans (takes_readPower? hpower)))
  · cases h

/-! ### Strings -/

/-- The first quote among the characters, if there is one, stands behind a backslash. -/
def QuotesEscaped (cs : List Char) : Prop := ∀ u v, cs = u ++ '"' :: v → '"' ∉ u → u.getLast? = some '\\'

theorem quotesEscaped_nil : QuotesEscaped [] :=
  fun _ _ h => absurd h.symm (List.append_ne_nil_of_right_ne_nil _ (List.cons_ne_nil _ _))

theorem QuotesEscaped.append {front cs : List Char} (hfront : '"' ∉ front) (h : QuotesEscaped cs) :
    QuotesEscaped (front ++ cs) := by
  intro u v huv hu
  obtain ⟨more, rfl, hcs⟩ := cut_behind hfront huv
  have hlast := h more v hcs fun hmem => hu (List.mem_append_right _ hmem)
  rw [List.getLast?_append, hlast]
  rfl

theorem quotesEscaped_escape (cs : List Char) : QuotesEscaped ('\\' :: '"' :: cs) := by
  intro u v huv hu
  cases u with
  | nil => cases huv
  | cons c u =>
    obtain ⟨rfl, hrest⟩ := List.cons.inj huv
    cases u with
    | nil => rfl
    | cons d u =>
      obtain ⟨rfl, -⟩ := List.cons.inj hrest
      exact absurd (List.mem_cons_of_mem _ List.mem_cons_self) hu

theorem isPlain_of_hexValue? {c : Char} {n : Nat} (h : Text.hexValue? c = some n) : IsPlain c := by
  have hne : ∀ a, Text.hexValue? a = none → c ≠ a := by
    rintro a ha rfl
    rw [ha] at h
    cases h
  exact ⟨Nat.le_of_lt (Text.visible_of_hexValue? h).1, hne _ (by decide), hne _ (by decide), hne _ (by decide)⟩

theorem takes_readHex4? {cs rest : List Char} {n : Nat} (h : readHex4? cs = some (n, rest)) :
    Takes IsPlain cs rest := by
  unfold readHex4? at h
  split at h
  · simp only [Option.bind_eq_bind, Option.bind_eq_some_iff, Option.pure_def, Option.some.injEq, Prod.mk.injEq] at h
    obtain ⟨_, ha, _, hb, _, hc, _, hd, -, rfl⟩ := h
    exact .cons (isPlain_of_hexValue? ha) (.cons (isPlain_of_hexValue? hb) (.cons (isPlain_of_hexValue? hc)
      (.cons (isPlain_of_hexValue? hd) (.refl _ _))))
  · cases h

/-- A character that is neither a control character nor a quote. -/
def IsUnquoted (c : Char) : Prop := 0x20 ≤ c.toNat ∧ c ≠ '"'

instance : DecidablePred IsUnquoted := fun c => by
  unfold IsUnquoted
  infer_instance

theorem isUnquoted_of_isPlain (c : Char) (h : IsPlain c) : IsUnquoted c := ⟨h.1, h.2.1⟩

theorem takes_readNumbered? {cs rest : List Char} {c : Char} (h : readNumbered? cs = some (c, rest)) :
    Takes IsUnquoted cs rest := by
  unfold readNumbered? at h
  split at h
  · cases h
  · next n r hn =>
    have htakes := (takes_readHex4? hn).mono isUnquoted_of_isPlain
    split at h
    · split at h
      · split at h
        · next m r' hm =>
          split at h
          · simp only [Option.some.injEq, Prod.mk.injEq] at h
            obtain ⟨-, rfl⟩ := h
            exact htakes.trans (.cons (by decide) (.cons (by decide) ((takes_readHex4? hm).mono isUnquoted_of_isPlain)))
          · cases h
        · cases h
      · cases h
    · split at h
      · cases h
      · cases h
        exact htakes

/-- An escape is a quote, or has none. -/
theorem takes_readEscape? {cs rest : List Char} {c : Char} (h : readEscape? cs = some (c, rest)) :
    cs = '"' :: rest ∨ Takes IsUnquoted cs rest := by
  obtain ⟨letter, hletter, rfl⟩ | ⟨r, rfl, hnumber⟩ := readEscape?_cases h
  · have hletters : ∀ p ∈ escapeLetters, p.1 = '"' ∨ IsUnquoted p.1 := by simp [escapeLetters, IsUnquoted]
    obtain rfl | hplain := hletters _ hletter
    · exact .inl rfl
    · exact .inr (.cons hplain (.refl _ _))
  · exact .inr (.cons (by decide) (takes_readNumbered? hnumber))

/-- The characters of a string up to its closing quote. -/
theorem exists_of_readString? {done cs rest : List Char} {s : String} (h : readString? done cs = some (s, rest)) :
    ∃ body, cs = body ++ '"' :: rest ∧ (∀ c ∈ body, 0x20 ≤ c.toNat) ∧ QuotesEscaped body := by
  fun_induction readString? done cs with
  | case1 => cases h
  | case2 done r =>
    cases h
    exact ⟨[], rfl, List.forall_mem_nil _, quotesEscaped_nil⟩
  | case3 done r c after hc ih =>
    obtain ⟨body, rfl, hbody, hquotes⟩ := ih h
    rcases takes_readEscape? hc with rfl | ⟨taken, rfl, htaken⟩
    · exact ⟨'\\' :: '"' :: body, rfl,
        List.forall_mem_cons.mpr ⟨by decide, List.forall_mem_cons.mpr ⟨by decide, hbody⟩⟩, quotesEscaped_escape body⟩
    · refine ⟨('\\' :: taken) ++ body, by simp, ?_, hquotes.append ?_⟩
      · exact List.forall_mem_append.mpr ⟨List.forall_mem_cons.mpr ⟨by decide, fun d hd => (htaken d hd).1⟩, hbody⟩
      · rw [List.mem_cons, not_or]
        exact ⟨by decide, fun hmem => (htaken '"' hmem).2 rfl⟩
  | case4 => cases h
  | case5 => cases h
  | case6 done c r hquote hback hc ih =>
    obtain ⟨body, rfl, hbody, hquotes⟩ := ih h
    refine ⟨[c] ++ body, rfl, List.forall_mem_cons.mpr ⟨by omega, hbody⟩, hquotes.append ?_⟩
    rw [List.mem_singleton]
    exact fun heq => hquote heq.symm

/-! ### Words -/

/-- What a word looks like: plain characters, or a string between quotes. -/
inductive Word : List Char → Prop where
  | plain {w : List Char} (h : ∀ c ∈ w, IsPlain c) : Word w
  | string {body : List Char} (visible : ∀ c ∈ body, 0x20 ≤ c.toNat) (quotes : QuotesEscaped body) :
    Word ('"' :: (body ++ ['"']))

theorem word_of_takes {cs rest : List Char} (h : Takes IsPlain cs rest) : ∃ w, Word w ∧ w ++ rest = cs := by
  obtain ⟨w, rfl, hw⟩ := h
  exact ⟨w, .plain hw, rfl⟩

theorem word_of_read? {cs rest : List Char} {t : Token} (h : Token.read? cs = some (t, rest)) :
    ∃ w, Word w ∧ w ++ rest = cs := by
  obtain ⟨w, hw, rfl⟩ | ⟨r, s, rfl, hs, -⟩ | ⟨s, hs, -⟩ := Token.read?_cases h
  · have hwords : ∀ p ∈ fixedWords, ∀ c ∈ p.1, IsPlain c := by simp [fixedWords, IsPlain]
    exact ⟨w, .plain (hwords _ hw), rfl⟩
  · obtain ⟨body, rfl, hbody, hquotes⟩ := exists_of_readString? hs
    exact ⟨_, .string hbody hquotes, by simp⟩
  · exact word_of_takes (takes_readNumber? hs)

theorem Word.visible {w : List Char} (h : Word w) : ∀ c ∈ w, 0x20 ≤ c.toNat := by
  cases h with
  | plain h => exact fun c hc => (h c hc).1
  | string hbody _ =>
    refine List.forall_mem_cons.mpr ⟨by decide, List.forall_mem_append.mpr ⟨hbody, ?_⟩⟩
    exact List.forall_mem_singleton.mpr (by decide)

/-! ### Texts -/

theorem tokensFrom?_eq (done : List Token) (cs : List Char) :
    tokensFrom? done cs = (tokens? cs).map (done.reverse ++ ·) := by
  induction hn : cs.length using Nat.strong_induction_on generalizing done cs with
  | _ n ih =>
    subst hn
    have hle := (List.dropWhile_sublist (l := cs) isBlank).length_le
    unfold tokens?
    rw [tokensFrom?, tokensFrom?]
    split
    · simp
    · next c r hc =>
      split
      · next t rest ht =>
        have hlt := Token.length_lt_of_read? ht
        rw [hc] at hle
        have hlen : rest.length < cs.length := by omega
        rw [ih _ hlen (t :: done) rest rfl, ih _ hlen [t] rest rfl]
        simp [Function.comp_def]
      · rfl

theorem tokens?_eq_nil {cs : List Char} (h : cs.dropWhile isBlank = []) : tokens? cs = some [] := by
  unfold tokens?
  rw [tokensFrom?]
  split
  · rfl
  · next hcons =>
    rw [h] at hcons
    cases hcons

theorem tokens?_of_cons {cs : List Char} {c : Char} {r : List Char} (h : cs.dropWhile isBlank = c :: r) :
    tokens? cs = (Token.read? (c :: r)).bind fun p => (tokens? p.2).map (p.1 :: ·) := by
  rw [tokens?, tokensFrom?]
  split
  · next hnil =>
    rw [h] at hnil
    cases hnil
  · next d s hcons =>
    obtain ⟨rfl, rfl⟩ : d = c ∧ s = r := by simpa [h, eq_comm] using hcons
    split
    · next t rest ht =>
      rw [ht, tokensFrom?_eq]
      rfl
    · next ht =>
      rw [ht]
      rfl

/-- **The words of a text, one at a time**: there are none, and all is blank; or there is a first word, with blanks
before it and further words after it. -/
theorem tokens?_cases {cs : List Char} {ts : List Token} (h : tokens? cs = some ts) :
    ((∀ c ∈ cs, isBlank c = true) ∧ ts = []) ∨
    ∃ blanks w rest t more, cs = blanks ++ (w ++ rest) ∧ (∀ c ∈ blanks, isBlank c = true) ∧ Word w ∧
      Token.read? (w ++ rest) = some (t, rest) ∧ tokens? rest = some more ∧ ts = t :: more := by
  cases hc : cs.dropWhile isBlank with
  | nil =>
    rw [tokens?_eq_nil hc] at h
    exact .inl ⟨List.dropWhile_eq_nil_iff.mp hc, (Option.some.inj h).symm⟩
  | cons c r =>
    rw [tokens?_of_cons hc] at h
    obtain ⟨⟨t, rest⟩, ht, hmap⟩ := Option.bind_eq_some_iff.mp h
    obtain ⟨more, hmore, rfl⟩ := Option.map_eq_some_iff.mp hmap
    obtain ⟨w, hw, hsplit⟩ := word_of_read? ht
    refine .inr ⟨cs.takeWhile isBlank, w, rest, t, more, ?_, fun _ => List.mem_takeWhile_imp, hw, ?_, hmore, rfl⟩
    · rw [hsplit, ← hc, List.takeWhile_append_dropWhile]
    · rw [hsplit, ht]

theorem tokens?_blanks_append {blanks : List Char} (h : ∀ c ∈ blanks, isBlank c = true) (cs : List Char) :
    tokens? (blanks ++ cs) = tokens? cs := by
  have hdrop : (blanks ++ cs).dropWhile isBlank = cs.dropWhile isBlank := List.dropWhile_append_of_pos h
  cases hc : cs.dropWhile isBlank with
  | nil => rw [tokens?_eq_nil hc, tokens?_eq_nil (hdrop.trans hc)]
  | cons c r => rw [tokens?_of_cons hc, tokens?_of_cons (hdrop.trans hc)]

/-- **No word has a tab.** What stands behind a tab is words of its own; what stands before it has words, or is blank.
-/
theorem tokens?_after_tab {u v : List Char} {ts : List Token} (h : tokens? (u ++ '\t' :: v) = some ts) :
    ∃ ts₁ ts₂, tokens? v = some ts₂ ∧ ts = ts₁ ++ ts₂ ∧ (ts₁ = [] → ∀ c ∈ u, isBlank c = true) := by
  induction hn : u.length using Nat.strong_induction_on generalizing u ts with
  | _ n ih =>
    subst hn
    by_cases hu : ∀ c ∈ u, isBlank c = true
    · have htab : ∀ c ∈ u ++ ['\t'], isBlank c = true :=
        List.forall_mem_append.mpr ⟨hu, List.forall_mem_singleton.mpr rfl⟩
      rw [List.append_cons, tokens?_blanks_append htab] at h
      exact ⟨[], ts, h, rfl, fun _ => hu⟩
    · rcases tokens?_cases h with ⟨hblank, -⟩ | ⟨blanks, w, rest, t, more, hsplit, hblanks, hw, ht, hmore, rfl⟩
      · exact absurd (List.forall_mem_append.mp hblank).1 hu
      · rcases List.append_eq_append_iff.mp hsplit with ⟨more', rfl, -⟩ | ⟨more', rfl, hrest⟩
        · exact absurd (List.forall_mem_append.mp hblanks).1 hu
        · have htab : '\t' ∉ w := fun hmem => absurd (hw.visible _ hmem) (by decide)
          obtain ⟨u', rfl, rfl⟩ := cut_behind htab hrest
          have hlt := Token.length_lt_of_read? ht
          have hlen : u'.length < (blanks ++ (w ++ u')).length := by
            simp only [List.length_append] at hlt ⊢
            omega
          obtain ⟨ts₁, ts₂, hv, rfl, -⟩ := ih _ hlen hmore rfl
          exact ⟨t :: ts₁, ts₂, hv, rfl, fun hnil => nomatch hnil⟩

/-- **The first string of a text.** Quotes and equals signs stand in strings only. -/
theorem exists_string_of_tokens? {cs : List Char} {ts : List Token} (h : tokens? cs = some ts)
    (hcs : '"' ∈ cs ∨ '=' ∈ cs) :
    ∃ front body rest more, cs = front ++ '"' :: (body ++ '"' :: rest) ∧
      (∀ c ∈ front, c ≠ '"' ∧ c ≠ '\\' ∧ c ≠ '=') ∧ QuotesEscaped body ∧ tokens? rest = some more ∧
      more.length < ts.length := by
  have hblank : ∀ c, isBlank c = true → c ≠ '"' ∧ c ≠ '\\' ∧ c ≠ '=' := by
    intro c hc
    refine ⟨?_, ?_, ?_⟩ <;> (rintro rfl; exact absurd hc (by decide))
  induction ts generalizing cs with
  | nil =>
    rcases tokens?_cases h with ⟨hall, -⟩ | ⟨_, _, _, _, _, -, -, -, -, -, hnil⟩
    · rcases hcs with hmem | hmem
      · exact absurd rfl (hblank _ (hall _ hmem)).1
      · exact absurd rfl (hblank _ (hall _ hmem)).2.2
    · cases hnil
  | cons t ts ih =>
    rcases tokens?_cases h with ⟨-, hnil⟩ | ⟨blanks, w, rest, _, _, rfl, hblanks, hw, -, hmore, hts⟩
    · cases hnil
    · cases hts
      have hfront : ∀ c ∈ blanks, c ≠ '"' ∧ c ≠ '\\' ∧ c ≠ '=' := fun c hc => hblank c (hblanks c hc)
      cases hw with
      | string _ hquotes =>
        exact ⟨blanks, _, rest, ts, by simp, hfront, hquotes, hmore, Nat.lt_succ_self _⟩
      | plain hplain =>
        have hfront' : ∀ c ∈ blanks ++ w, c ≠ '"' ∧ c ≠ '\\' ∧ c ≠ '=' :=
          List.forall_mem_append.mpr ⟨hfront, fun c hc => (hplain c hc).2⟩
        have hrest : '"' ∈ rest ∨ '=' ∈ rest := by
          rw [← List.append_assoc] at hcs
          refine hcs.imp (fun hmem => ?_) fun hmem => ?_
          · exact (List.mem_append.mp hmem).resolve_left fun hmem => (hfront' _ hmem).1 rfl
          · exact (List.mem_append.mp hmem).resolve_left fun hmem => (hfront' _ hmem).2.2 rfl
        obtain ⟨front, body, rest', more, rfl, hmiddle, hquotes, hmore', hlen⟩ := ih hmore hrest
        exact ⟨blanks ++ w ++ front, body, rest', more, by simp, List.forall_mem_append.mpr ⟨hfront', hmiddle⟩, hquotes,
          hmore', Nat.lt_succ_of_lt hlen⟩

theorem isBlank_or_visible_of_tokens? {cs : List Char} {ts : List Token} (h : tokens? cs = some ts) :
    ∀ c ∈ cs, isBlank c = true ∨ 0x20 ≤ c.toNat := by
  induction ts generalizing cs with
  | nil =>
    rcases tokens?_cases h with ⟨hblank, -⟩ | ⟨_, _, _, _, _, -, -, -, -, -, hnil⟩
    · exact fun c hc => .inl (hblank c hc)
    · cases hnil
  | cons t ts ih =>
    rcases tokens?_cases h with ⟨-, hnil⟩ | ⟨blanks, w, rest, t', more, rfl, hblanks, hw, -, hmore, hts⟩
    · cases hnil
    · cases hts
      refine List.forall_mem_append.mpr ⟨fun c hc => .inl (hblanks c hc), ?_⟩
      exact List.forall_mem_append.mpr ⟨fun c hc => .inr (hw.visible c hc), ih hmore⟩

end LegibleLog.Json
