import LegibleLog.Event.Record
import LegibleLog.Proofs.Json.Balance
import LegibleLog.Proofs.Logfmt.Quotes
import LegibleLog.Proofs.Members

/-!
# Two forms of records, and what stands before a record

* `Json.equals_notMem_of_row` — a JSON text that is a row of tokens has no tokens at all;
* `not_json_and_logfmt` — no bytes are a record in both forms;
* `Prefixed` — a first word that neither form begins with, so that `Prefixed.not_record` holds;
* `not_record_and_body` — no record has words, a tab and a JSON record at its end.
-/

namespace LegibleLog

/-! ### JSON texts and rows of tokens -/

namespace Json

variable {cs : List Char} {ts : List Token}

/-- In a row of tokens the first quote stands behind an equals sign, and before the first string of a JSON text there is
none. -/
theorem equals_notMem_of_row (h : tokens? cs = some ts) {row : Logfmt.Row} (hrow : row.Legal Logfmt.hexNumber?)
    (htext : row.text = cs) : '=' ∉ cs := by
  intro hequals
  obtain ⟨front, body, rest, more, rfl, hfront, -⟩ := exists_string_of_tokens? h (.inr hequals)
  obtain ⟨hlast, -⟩ := hrow.first_quote (fun hmem => (hfront _ hmem).1 rfl) htext
  exact (hfront _ (List.mem_of_getLast? hlast)).2.2 rfl

/-- No JSON text goes on inside a quoted value: each of its strings would be followed by one that does, too. -/
theorem not_inQuotes (h : tokens? cs = some ts) : ¬ Logfmt.InQuotes cs := by
  induction hn : ts.length using Nat.strong_induction_on generalizing cs ts with
  | _ n ih =>
    subst hn
    intro hquotes
    have hmem : '"' ∈ cs := by
      obtain ⟨_, _, -, -, -, rfl⟩ := hquotes
      simp
    obtain ⟨front, body, rest, more, rfl, hfront, hbody, hmore, hlen⟩ := exists_string_of_tokens? h (.inl hmem)
    -- the quote that opens the string ends the value, and the next one opens another value
    obtain ⟨row, hrow, -, htext⟩ := hquotes.first_quote fun c hc => ⟨(hfront c hc).1, (hfront c hc).2.1⟩
    by_cases hquote : '"' ∈ body
    · obtain ⟨u, v, rfl, hu⟩ := List.eq_append_cons_of_mem hquote
      rw [List.append_assoc, List.cons_append] at htext
      have hlast := (hrow.first_quote hu htext).1
      rw [hbody u v rfl hu] at hlast
      exact absurd hlast (by decide)
    · exact ih _ hlen hmore rfl (hrow.first_quote hquote htext).2

/-- The blanks of JSON are blanks before a record, too. -/
theorem isFeedBlank_of_mem_encodeChars (h : ∀ c ∈ cs, isBlank c = true) {b : UInt8} (hb : b ∈ Text.encodeChars cs) :
    Text.isFeedBlank b = true := by
  obtain ⟨c, hc, hbyte⟩ := List.mem_flatMap.mp hb
  have hcases := h c hc
  simp only [isBlank, Bool.or_eq_true, beq_iff_eq] at hcases
  rcases hcases with ((rfl | rfl) | rfl) | rfl <;>
    (rw [Text.utf8EncodeChar_of_ascii (by decide), List.mem_singleton] at hbyte; rw [hbyte]; decide)

theorem isAsciiBlank_of_mem_encodeChars (h : ∀ c ∈ cs, isBlank c = true) {b : UInt8} (hb : b ∈ Text.encodeChars cs) :
    Text.isAsciiBlank b = true :=
  (Bool.and_eq_true_iff.mp (isFeedBlank_of_mem_encodeChars h hb)).1

end Json

/-! ### Records as bytes -/

variable {bytes : List UInt8} {pairs pairs' : List (String × RawValue)}

/-- The text of a record in JSON. -/
theorem readJson_cases (h : readJson bytes = .ok pairs) :
    ∃ cs v, Text.encodeChars cs = bytes ∧ Json.Value.ofText? cs = some v := by
  obtain ⟨text, members, htext, hv, -⟩ := readJson_eq_ok h
  exact ⟨text.toList, _, Text.decode?_eq_some_iff.mp htext, hv⟩

/-- The text of a record in logfmt. -/
theorem readLogfmt_cases (h : readLogfmt bytes = .ok pairs) :
    ∃ row : Logfmt.Row, row.Legal Logfmt.hexNumber? ∧ Text.encodeChars row.text = bytes ∧ '=' ∈ row.text := by
  unfold readLogfmt at h
  split at h
  · next hequals =>
    split at h
    · cases h
    · next text htext =>
      split at h
      · next hdecode =>
        obtain ⟨row, hrow, hcs, -⟩ := Logfmt.decode_eq_ok_iff.mp hdecode
        have hbytes := Text.decode?_eq_some_iff.mp htext
        refine ⟨row, hrow, hcs ▸ hbytes, ?_⟩
        rw [← Text.toUInt8_mem_encodeChars_iff (by decide), hcs, hbytes]
        exact List.mem_of_elem_eq_true hequals
      · cases h
  · cases h

/-- **No bytes are a record in both forms.** -/
theorem not_json_and_logfmt (h : readJson bytes = .ok pairs) : readLogfmt bytes ≠ .ok pairs' := by
  intro h'
  obtain ⟨cs, v, rfl, hv⟩ := readJson_cases h
  obtain ⟨row, hrow, htext, hequals⟩ := readLogfmt_cases h'
  obtain rfl := Text.encodeChars_injective htext
  obtain ⟨ts, hts, -⟩ := Option.bind_eq_some_iff.mp hv
  exact Json.equals_notMem_of_row hts hrow rfl hequals

/-- A record in JSON begins with a brace, but for blanks. -/
theorem head?_of_readJson (h : readJson bytes = .ok pairs) :
    (bytes.dropWhile Text.isFeedBlank).head? = some '\x7b'.toUInt8 := by
  unfold readJson at h
  split at h
  · assumption
  · cases h

/-! ### A word before a record -/

/-- The line has a first word that no record begins with: it has no equals sign, and its first byte is visible and comes
before the opening brace. -/
def Prefixed (line : List UInt8) : Prop :=
  ∃ first word blank rest, line = first :: (word ++ blank :: rest) ∧ 0x20 < first.toNat ∧ first.toNat < 0x7B ∧
    '='.toUInt8 ∉ first :: word ∧ Text.isAsciiBlank blank = true

theorem Prefixed.not_record {line : List UInt8} (h : Prefixed line) (f : Format) : f.read line ≠ .ok pairs := by
  obtain ⟨first, word, blank, rest, rfl, hlow, hhigh, hequals, hblank⟩ := h
  intro hread
  cases f with
  | json =>
    have hfeed : Text.isFeedBlank first = false := by
      rw [Text.isFeedBlank, Text.isAsciiBlank_of_visible _ hlow, Bool.false_and]
    have hhead := head?_of_readJson hread
    rw [List.dropWhile_cons_of_neg (by simp [hfeed]), List.head?_cons] at hhead
    rw [Option.some.inj hhead] at hhigh
    exact absurd hhigh (by decide)
  | logfmt =>
    obtain ⟨row, hrow, hbytes, -⟩ := readLogfmt_cases hread
    obtain ⟨hascii, hblank⟩ := Text.isBlank_ofUInt8 _ hblank
    have hvisible : (Char.ofUInt8 first).toNat < 0x80 := by
      rw [Text.toNat_ofUInt8]
      omega
    rw [← List.cons_append, ← Text.toUInt8_ofUInt8 blank] at hbytes
    obtain ⟨l, r, htext, hl, -⟩ := Text.exists_split hascii hbytes
    have hnot : '=' ∉ l := by rwa [← Text.toUInt8_mem_encodeChars_iff (by decide), hl]
    rw [← Text.toUInt8_ofUInt8 first] at hl
    obtain ⟨u, rfl, -⟩ := Text.exists_cons_of_encodeChars hvisible hl
    have hfirst : Text.isBlank (Char.ofUInt8 first) = false :=
      Text.isBlank_of_visible (by rwa [Text.toNat_ofUInt8]) hvisible
    exact hnot (hrow.equals_before_blank hblank hfirst htext)

/-! ### A body behind a tab -/

/-- **No record has words, a tab and a JSON record at its end.** In JSON, brackets and braces are balanced before the
tab; in logfmt, the tab stands between two tokens or in quotes. -/
theorem not_record_and_body {f : Format} {front body : List UInt8}
    (hfront : ∃ b ∈ front, Text.isAsciiBlank b = false) (h : f.read (front ++ '\t'.toUInt8 :: body) = .ok pairs) :
    readJson body ≠ .ok pairs' := by
  intro h'
  obtain ⟨cs, v, rfl, hv⟩ := readJson_cases h'
  obtain ⟨ts, hts, -⟩ := Option.bind_eq_some_iff.mp hv
  cases f with
  | json =>
    obtain ⟨whole, w, hwhole, hw⟩ := readJson_cases h
    obtain ⟨l, r, rfl, rfl, hr⟩ := Text.exists_split (by decide) hwhole
    obtain rfl := Text.encodeChars_injective hr
    have hl := Json.Value.blank_of_ofText?_after_tab hw hv
    obtain ⟨b, hb, hvisible⟩ := hfront
    rw [Json.isAsciiBlank_of_mem_encodeChars hl hb] at hvisible
    cases hvisible
  | logfmt =>
    obtain ⟨row, hrow, hwhole, -⟩ := readLogfmt_cases h
    obtain ⟨l, r, htext, -, hr⟩ := Text.exists_split (by decide) hwhole
    obtain rfl := Text.encodeChars_injective hr
    rcases hrow.after_blank (by decide) htext with ⟨row', hrow', rfl⟩ | hquotes
    · have hbrace : '\x7b' ∈ row'.text := by
        rw [← Text.toUInt8_mem_encodeChars_iff (by decide)]
        have hmem := List.mem_of_head? (head?_of_readJson h')
        exact (List.dropWhile_sublist _).subset hmem
      have hblank := hrow'.blank_of_equals_notMem (Json.equals_notMem_of_row hts hrow' rfl)
      exact absurd (hblank _ hbrace) (by decide)
    · exact Json.not_inQuotes hts hquotes

end LegibleLog
