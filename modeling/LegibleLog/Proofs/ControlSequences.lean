import LegibleLog.Proofs.Cuts
import LegibleLog.Wrapper.Csi

/-!
# Bytes without control sequences

* `Csi.strip_cons`, `Csi.strip_of_sequence` — one byte, and one control sequence, at the front;
* `Csi.Free bytes` — no control sequence begins anywhere; `Csi.strip_eq_self_iff` says that nothing is taken out then;
* `Csi.IsColor` — a control sequence that sets colours; `Csi.strip_colors_append` takes such sequences out.
-/

namespace LegibleLog.Csi

variable {b : UInt8} {bytes rest : List UInt8}

/-- The byte that control sequences begin with. -/
def escape : UInt8 := 0x1B

theorem stripFrom_eq (done bytes : List UInt8) : stripFrom done bytes = done.reverse ++ strip bytes := by
  unfold strip
  induction hn : bytes.length using Nat.strong_induction_on generalizing done bytes with
  | _ n ih =>
    subst hn
    cases bytes with
    | nil => simp [stripFrom]
    | cons b r =>
      rw [stripFrom, stripFrom]
      split
      · next rest hrest =>
        exact ih _ (length_lt_of_afterSequence? hrest) done rest rfl
      · rw [ih _ (Nat.lt_succ_self _) (b :: done) r rfl, ih _ (Nat.lt_succ_self _) [b] r rfl]
        simp

@[simp]
theorem strip_nil : strip [] = [] := by
  rw [strip, stripFrom]
  rfl

theorem strip_cons (h : afterSequence? (b :: bytes) = none) : strip (b :: bytes) = b :: strip bytes := by
  rw [strip, stripFrom]
  split
  · next hrest =>
    rw [h] at hrest
    cases hrest
  · rw [stripFrom_eq]
    rfl

theorem strip_of_sequence (h : afterSequence? bytes = some rest) : strip bytes = strip rest := by
  cases bytes with
  | nil => cases h
  | cons b r =>
    rw [strip, stripFrom]
    split
    · next hrest =>
      rw [h] at hrest
      cases hrest
      rfl
    · next hnone =>
      rw [h] at hnone
      cases hnone

theorem afterSequence?_of_ne (h : b ≠ escape) : afterSequence? (b :: bytes) = none := by
  unfold afterSequence?
  split
  · next heq =>
    cases heq
    exact absurd rfl h
  · rfl

theorem strip_append_of_notMem {front : List UInt8} (h : escape ∉ front) (rest : List UInt8) :
    strip (front ++ rest) = front ++ strip rest := by
  induction front with
  | nil => rfl
  | cons b front ih =>
    rw [List.mem_cons, not_or] at h
    rw [List.cons_append, strip_cons (afterSequence?_of_ne (Ne.symm h.1)), ih h.2, List.cons_append]

theorem suffix_of_afterSequence? (h : afterSequence? bytes = some rest) : rest <:+ bytes := by
  unfold afterSequence? at h
  split at h
  · next r =>
    split at h
    · next b after hdrop =>
      split at h
      · cases h
        have hafter : rest <:+ (r.dropWhile isParameter).dropWhile isIntermediate := hdrop ▸ List.suffix_cons b rest
        have hdrops := (List.dropWhile_suffix isIntermediate (l := r.dropWhile isParameter)).trans
          (List.dropWhile_suffix isParameter (l := r))
        exact (hafter.trans hdrops).trans ((List.suffix_cons _ r).trans (List.suffix_cons _ _))
      · cases h
    · cases h
  · cases h

/-- What is left is a part of what was there. -/
theorem strip_sublist (bytes : List UInt8) : (strip bytes).Sublist bytes := by
  induction hn : bytes.length using Nat.strong_induction_on generalizing bytes with
  | _ n ih =>
    subst hn
    cases hsequence : afterSequence? bytes with
    | some rest =>
      rw [strip_of_sequence hsequence]
      exact (ih _ (length_lt_of_afterSequence? hsequence) rest rfl).trans
        (suffix_of_afterSequence? hsequence).sublist
    | none =>
      cases bytes with
      | nil => simp [strip_nil]
      | cons b r =>
        rw [strip_cons hsequence]
        exact (ih _ (Nat.lt_succ_self _) r rfl).cons_cons b

/-! ### Nothing to take out -/

/-- No control sequence begins anywhere. -/
def Free (bytes : List UInt8) : Prop := ∀ back, back <:+ bytes → afterSequence? back = none

theorem free_cons_iff : Free (b :: bytes) ↔ afterSequence? (b :: bytes) = none ∧ Free bytes := by
  simp only [Free, List.suffix_cons_iff, forall_eq_or_imp]

/-- **Exactly the bytes in which no control sequence begins are left as they are.** -/
theorem strip_eq_self_iff : strip bytes = bytes ↔ Free bytes := by
  induction bytes with
  | nil =>
    rw [strip_nil]
    refine iff_of_true rfl fun back hback => ?_
    rw [List.suffix_nil.mp hback]
    rfl
  | cons b bytes ih =>
    rw [free_cons_iff, ← ih]
    cases hsequence : afterSequence? (b :: bytes) with
    | none => rw [strip_cons hsequence, List.cons_inj_right]; simp
    | some rest =>
      refine iff_of_false (fun heq => ?_) fun h => nomatch h.1
      have hle := (strip_sublist rest).length_le
      have hlt := length_lt_of_afterSequence? hsequence
      rw [strip_of_sequence hsequence] at heq
      rw [heq] at hle
      omega

theorem free_of_notMem (h : escape ∉ bytes) : Free bytes := by
  rw [← strip_eq_self_iff]
  have hstrip := strip_append_of_notMem h []
  rwa [List.append_nil, strip_nil, List.append_nil] at hstrip

/-! ### Colours -/

/-- A control sequence that sets colours: parameters, and an `m` at the end. -/
def IsColor (code : List UInt8) : Prop :=
  ∃ parameters, (∀ b ∈ parameters, isParameter b = true) ∧ code = escape :: 0x5B :: (parameters ++ ['m'.toUInt8])

theorem afterSequence?_color_append {code : List UInt8} (h : IsColor code) (rest : List UInt8) :
    afterSequence? (code ++ rest) = some rest := by
  obtain ⟨parameters, hparameters, rfl⟩ := h
  have hhead : ∀ b ∈ ('m'.toUInt8 :: rest).head?, isParameter b = false := by
    rintro b ⟨⟩
    decide
  obtain ⟨-, hdrop⟩ := takeWhile_append_eq hparameters hhead
  have hdrop' : ('m'.toUInt8 :: rest).dropWhile isIntermediate = 'm'.toUInt8 :: rest :=
    List.dropWhile_cons_of_neg (by decide)
  simp only [List.cons_append, List.append_assoc, List.nil_append, escape, afterSequence?, hdrop, hdrop']
  exact if_pos (by decide)

theorem strip_colors_append {codes : List (List UInt8)} (h : ∀ code ∈ codes, IsColor code) (rest : List UInt8) :
    strip (codes.flatten ++ rest) = strip rest := by
  induction codes with
  | nil => rfl
  | cons code codes ih =>
    obtain ⟨hcode, hcodes⟩ := List.forall_mem_cons.mp h
    rw [List.flatten_cons, List.append_assoc, strip_of_sequence (afterSequence?_color_append hcode _), ih hcodes]

end LegibleLog.Csi
