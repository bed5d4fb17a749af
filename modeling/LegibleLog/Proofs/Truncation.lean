import LegibleLog.Proofs.Ascii
import LegibleLog.Render.Line

/-!
# Values that are cut

* `truncateText_of_le`, `truncateText_append` — a text that is short enough stays, of another its first characters stay
  and a mark follows;
* `truncateText_truncateText` — cutting a second time, at the same place or before it, is as good as cutting once;
* `truncateText_keeps_first` — all of this, with the place of the cut in bytes.
-/

namespace LegibleLog

open Text

variable {n m : Nat} {text kept rest : String}

/-! ### One cut -/

theorem truncateText_of_le (h : text.length ≤ n) : truncateText n text = text := by
  unfold truncateText
  rw [List.drop_eq_nil_of_le (by rwa [String.length_toList])]

/-- Behind the characters that stay, it does not matter what the rest is. -/
theorem truncateText_append (hkept : kept.length = n) (hrest : rest ≠ "") :
    truncateText n (kept ++ rest) = kept ++ "..." := by
  have hlength : kept.toList.length = n := by rwa [String.length_toList]
  have hdrop : (kept ++ rest).toList.drop n = rest.toList := by
    rw [String.toList_append, List.drop_left' hlength]
  have htake : (kept ++ rest).toList.take n = kept.toList := by
    rw [String.toList_append, List.take_left' hlength]
  unfold truncateText
  rw [hdrop, htake, String.ofList_toList]
  split
  · next hnil => exact absurd (String.toList_eq_nil_iff.mp hnil) hrest
  · rfl

/-- A text that is too long has characters that stay and others that do not. -/
theorem exists_eq_append_of_lt (h : n < text.length) :
    ∃ kept rest, text = kept ++ rest ∧ kept.length = n ∧ rest ≠ "" := by
  rw [← String.length_toList] at h
  refine ⟨String.ofList (text.toList.take n), String.ofList (text.toList.drop n), ?_, ?_, ?_⟩
  · rw [← String.ofList_append, List.take_append_drop, String.ofList_toList]
  · rw [String.length_ofList, List.length_take]
    omega
  · intro hempty
    have hdrop : text.toList.drop n = [] := by
      rw [← String.toList_ofList (l := text.toList.drop n), hempty]
      rfl
    have hle := List.drop_eq_nil_iff.mp hdrop
    omega

/-! ### Two cuts -/

/-- **Cutting twice.** What a cut leaves has at its beginning what a cut at an earlier place leaves. -/
theorem truncateText_truncateText (h : n ≤ m) (text : String) :
    truncateText n (truncateText m text) = truncateText n text := by
  by_cases hm : text.length ≤ m
  · rw [truncateText_of_le hm]
  · obtain ⟨kept, rest, rfl, hkept, hrest⟩ := exists_eq_append_of_lt (Nat.lt_of_not_le hm)
    rw [truncateText_append hkept hrest]
    obtain rfl | hlt := h.eq_or_lt
    · rw [truncateText_append hkept hrest, truncateText_append hkept (by decide)]
    · obtain ⟨first, second, rfl, hfirst, hsecond⟩ := exists_eq_append_of_lt (hkept ▸ hlt)
      have hnonempty : ∀ more : String, second ++ more ≠ "" := by
        intro more heq
        exact hsecond (String.append_eq_empty_iff.mp heq).1
      rw [String.append_assoc, String.append_assoc, truncateText_append hfirst (hnonempty _),
        truncateText_append hfirst (hnonempty _)]

theorem Options.shownValue_shownValue (o : Options) (value : String) :
    o.shownValue (o.shownValue value) = o.shownValue value := by
  unfold shownValue
  split
  · exact truncateText_truncateText le_rfl value
  · rfl

/-- **Values that are cut.** A second cut at the same place, or before it, undoes the first one. A text that is short
enough stays; of another the characters in front of the cut stay, whose bytes are whole, and the mark follows. -/
theorem truncateText_keeps_first (h : n ≤ m) (text : String) :
    truncateText n (truncateText m text) = truncateText n text ∧
      (text.length ≤ n → truncateText n text = text) ∧
      (n < text.length → ∃ kept rest, text = kept ++ rest ∧ kept.length = n ∧ truncateText n text = kept ++ "..." ∧
        encode (truncateText n text) = (encode text).take kept.utf8ByteSize ++ encode "...") := by
  refine ⟨truncateText_truncateText h text, truncateText_of_le, fun hlt => ?_⟩
  obtain ⟨kept, rest, rfl, hkept, hrest⟩ := exists_eq_append_of_lt hlt
  have hcut := truncateText_append hkept hrest
  refine ⟨kept, rest, rfl, hkept, hcut, ?_⟩
  rw [hcut, encode_append, encode_append, ← length_encode kept, List.take_left' rfl]

/-- A text of thirteen characters, of which the fourth has two bytes. -/
theorem truncateText_keeps_first_four :
    let text := "abcé and more"
    truncateText 6 text = "abcé a..." ∧ truncateText 4 (truncateText 6 text) = "abcé..." ∧
      truncateText 13 text = text ∧
      ∃ kept rest, text = kept ++ rest ∧ kept.length = 4 ∧ truncateText 4 text = kept ++ "..." ∧
        encode (truncateText 4 text) = (encode text).take kept.utf8ByteSize ++ encode "..." := by
  intro text
  obtain ⟨htwice, -, hlong⟩ := truncateText_keeps_first (by decide : 4 ≤ 6) text
  have hshort := (truncateText_keeps_first (le_refl 13) text).2.1
  have hfour : truncateText 4 text = "abcé..." := by decide
  exact ⟨by decide, htwice.trans hfour, hshort (by decide), hlong (by decide)⟩

end LegibleLog
