import LegibleLog.Proofs.Ascii
import LegibleLog.Proofs.ControlSequences

/-!
# What one pass takes out

* `Csi.IsSequence s` — the bytes `s` are one control sequence; `Csi.afterSequence?_eq_some_iff` says that these are what
  the reader takes off the front;
* `Csi.Straddles l r` — a control sequence begins in `l` and ends in `r`; where none does, `Csi.strip_append_of_not_straddles`
  cuts the pass in two;
* `Csi.exists_cut_of_strip` — a cut of what is left comes from a cut of what was there;
* `Csi.strip_takes_out_sequences` — each control sequence is taken out wherever it stands, and nothing else; one is left
  exactly where the pass has brought its parts together.

The first byte of a control sequence, and no other byte of it, is the escape.  So two of them never overlap, and they are
taken out in any order alike; but the bytes on the two sides of one may make up another.
-/

namespace LegibleLog.Csi

variable {b : UInt8} {bytes rest s l r u v : List UInt8}

/-! ### Control sequences -/

/-- A control sequence: the escape, an opening bracket, parameter bytes, intermediate bytes and a final byte. -/
def IsSequence (s : List UInt8) : Prop :=
  ∃ parameters intermediates final, s = 0x1B :: 0x5B :: (parameters ++ (intermediates ++ [final])) ∧
    (∀ b ∈ parameters, 0x30 ≤ b ∧ b ≤ 0x3F) ∧ (∀ b ∈ intermediates, 0x20 ≤ b ∧ b ≤ 0x2F) ∧
    0x40 ≤ final ∧ final ≤ 0x7E

theorem isParameter_iff : isParameter b = true ↔ 0x30 ≤ b ∧ b ≤ 0x3F := by
  rw [isParameter, Bool.and_eq_true, decide_eq_true_eq, decide_eq_true_eq]

theorem isIntermediate_iff : isIntermediate b = true ↔ 0x20 ≤ b ∧ b ≤ 0x2F := by
  rw [isIntermediate, Bool.and_eq_true, decide_eq_true_eq, decide_eq_true_eq]

theorem isFinal_iff : isFinal b = true ↔ 0x40 ≤ b ∧ b ≤ 0x7E := by
  rw [isFinal, Bool.and_eq_true, decide_eq_true_eq, decide_eq_true_eq]

/-- The kinds of bytes in a control sequence have no byte in common, and none of them has the escape. -/
theorem isFinal_cases (h : isFinal b = true) : isParameter b = false ∧ isIntermediate b = false ∧ b ≠ escape := by
  obtain ⟨hlow, -⟩ := isFinal_iff.mp h
  have hbound : 0x40 ≤ b.toNat := UInt8.le_iff_toNat_le.mp hlow
  refine ⟨Bool.eq_false_iff.mpr fun hb => ?_, Bool.eq_false_iff.mpr fun hb => ?_, ?_⟩
  · have hle : b.toNat ≤ 0x3F := UInt8.le_iff_toNat_le.mp (isParameter_iff.mp hb).2
    omega
  · have hle : b.toNat ≤ 0x2F := UInt8.le_iff_toNat_le.mp (isIntermediate_iff.mp hb).2
    omega
  · rintro rfl
    exact absurd hbound (by decide)

theorem isIntermediate_cases (h : isIntermediate b = true) : isParameter b = false ∧ b ≠ escape := by
  obtain ⟨hlow, hhigh⟩ := isIntermediate_iff.mp h
  have hbound : b.toNat ≤ 0x2F := UInt8.le_iff_toNat_le.mp hhigh
  refine ⟨Bool.eq_false_iff.mpr fun hb => ?_, ?_⟩
  · have hle : 0x30 ≤ b.toNat := UInt8.le_iff_toNat_le.mp (isParameter_iff.mp hb).1
    omega
  · rintro rfl
    exact absurd hlow (by decide)

theorem ne_escape_of_isParameter (h : isParameter b = true) : b ≠ escape := by
  rintro rfl
  exact absurd h (by decide)

/-- The escape is the first byte of a control sequence and no other one. -/
theorem IsSequence.exists_body (h : IsSequence s) : ∃ body, s = escape :: body ∧ escape ∉ body := by
  obtain ⟨parameters, intermediates, final, rfl, hparameters, hintermediates, hfinal⟩ := h
  refine ⟨_, rfl, ?_⟩
  intro hmem
  simp only [List.mem_cons, List.mem_append, List.not_mem_nil, or_false] at hmem
  rcases hmem with hbracket | hmem | hmem | hlast
  · exact absurd hbracket (by decide)
  · exact ne_escape_of_isParameter (isParameter_iff.mpr (hparameters _ hmem)) rfl
  · exact (isIntermediate_cases (isIntermediate_iff.mpr (hintermediates _ hmem))).2 rfl
  · exact (isFinal_cases (isFinal_iff.mpr hfinal)).2.2 hlast.symm

/-- **What is taken off the front** is one control sequence. -/
theorem afterSequence?_eq_some_iff : afterSequence? bytes = some rest ↔ ∃ s, IsSequence s ∧ bytes = s ++ rest := by
  constructor
  · intro h
    unfold afterSequence? at h
    split at h
    · next more =>
      split at h
      · next final after hdrop =>
        split at h
        · next hfinal =>
          cases h
          refine ⟨_, ⟨more.takeWhile isParameter, (more.dropWhile isParameter).takeWhile isIntermediate, final, rfl,
            ?_, ?_, isFinal_iff.mp hfinal⟩, ?_⟩
          · intro b hb
            exact isParameter_iff.mp (List.mem_takeWhile_imp hb)
          · intro b hb
            exact isIntermediate_iff.mp (List.mem_takeWhile_imp hb)
          · simp only [List.cons_append, List.append_assoc, List.nil_append]
            rw [← hdrop, List.takeWhile_append_dropWhile, List.takeWhile_append_dropWhile]
        · cases h
      · cases h
    · cases h
  · rintro ⟨s, ⟨parameters, intermediates, final, rfl, hparameters, hintermediates, hfinal⟩, rfl⟩
    obtain ⟨hnot, hnot', -⟩ := isFinal_cases (isFinal_iff.mpr hfinal)
    have hhead : ∀ b ∈ (final :: rest).head?, isIntermediate b = false := by
      rintro b ⟨⟩
      exact hnot'
    have hhead' : ∀ b ∈ (intermediates ++ final :: rest).head?, isParameter b = false := by
      cases intermediates with
      | nil =>
        rintro b ⟨⟩
        exact hnot
      | cons b more =>
        rintro b' ⟨⟩
        exact (isIntermediate_cases (isIntermediate_iff.mpr (hintermediates _ List.mem_cons_self))).1
    obtain ⟨-, hdrop⟩ := takeWhile_append_eq (fun b hb => isParameter_iff.mpr (hparameters b hb)) hhead'
    obtain ⟨-, hdrop'⟩ := takeWhile_append_eq (fun b hb => isIntermediate_iff.mpr (hintermediates b hb)) hhead
    simp only [List.cons_append, List.append_assoc, List.nil_append, afterSequence?, hdrop, hdrop']
    exact if_pos (isFinal_iff.mpr hfinal)

theorem IsSequence.afterSequence?_append (h : IsSequence s) (rest : List UInt8) :
    afterSequence? (s ++ rest) = some rest :=
  afterSequence?_eq_some_iff.mpr ⟨s, h, rfl⟩

/-- No control sequence is the beginning of a longer one. -/
theorem IsSequence.eq_nil_of_append (h : IsSequence s) (h' : IsSequence (s ++ rest)) : rest = [] := by
  have hwhole := h'.afterSequence?_append []
  rw [List.append_nil, h.afterSequence?_append] at hwhole
  exact Option.some.inj hwhole

/-- Bytes are free of control sequences when no stretch of them is one. -/
theorem free_iff_not_infix : Free bytes ↔ ∀ s, IsSequence s → ¬ s <:+: bytes := by
  constructor
  · rintro h s hs ⟨front, back, rfl⟩
    have hnone := h (s ++ back) ⟨front, by rw [List.append_assoc]⟩
    rw [hs.afterSequence?_append] at hnone
    cases hnone
  · intro h back hback
    refine Option.eq_none_iff_forall_ne_some.mpr fun rest hrest => ?_
    obtain ⟨s, hs, rfl⟩ := afterSequence?_eq_some_iff.mp hrest
    exact h s hs ((List.infix_append [] s rest).trans hback.isInfix)

/-! ### Cutting the bytes -/

/-- A control sequence begins in the first bytes and ends in the second ones. -/
def Straddles (l r : List UInt8) : Prop :=
  ∃ front u more, l = front ++ u ∧ u ≠ [] ∧ more ≠ [] ∧ more <+: r ∧ IsSequence (u ++ more)

/-- Only what begins in a list may straddle its end, so a list that is behind another one straddles no more. -/
theorem Straddles.append (h : Straddles l r) (front : List UInt8) : Straddles (front ++ l) r := by
  obtain ⟨before, u, more, rfl, hrest⟩ := h
  exact ⟨front ++ before, u, more, (List.append_assoc ..).symm, hrest⟩

/-- A control sequence at the front of two lists lies in the first one, or it straddles. -/
theorem afterSequence?_append (hl : l ≠ []) (h : ¬ Straddles l r) :
    afterSequence? (l ++ r) = (afterSequence? l).map (· ++ r) := by
  cases hfront : afterSequence? l with
  | some rest =>
    obtain ⟨s, hs, rfl⟩ := afterSequence?_eq_some_iff.mp hfront
    rw [List.append_assoc, hs.afterSequence?_append, Option.map_some]
  | none =>
    rw [Option.map_none]
    refine Option.eq_none_iff_forall_ne_some.mpr fun rest hrest => ?_
    obtain ⟨s, hs, heq⟩ := afterSequence?_eq_some_iff.mp hrest
    rcases List.append_eq_append_iff.mp heq with ⟨more, rfl, hr⟩ | ⟨more, rfl, -⟩
    · by_cases hmore : more = []
      · -- the sequence ends where the first list does
        subst hmore
        have hwhole := hs.afterSequence?_append []
        rw [List.append_nil, List.append_nil, hfront] at hwhole
        cases hwhole
      · exact h ⟨[], l, more, rfl, hl, hmore, ⟨rest, hr.symm⟩, hs⟩
    · rw [hs.afterSequence?_append] at hfront
      cases hfront

/-- **A cut of the pass.** Where no control sequence straddles, the two sides are passed over one by one. -/
theorem strip_append_of_not_straddles (h : ¬ Straddles l r) : strip (l ++ r) = strip l ++ strip r := by
  induction hn : l.length using Nat.strong_induction_on generalizing l with
  | _ n ih =>
    subst hn
    cases l with
    | nil => rw [strip_nil, List.nil_append, List.nil_append]
    | cons b l =>
      have hfront := afterSequence?_append (List.cons_ne_nil b l) h
      cases hsequence : afterSequence? (b :: l) with
      | some rest =>
        rw [hsequence, Option.map_some] at hfront
        have hrest : ¬ Straddles rest r := by
          obtain ⟨s, -, heq⟩ := afterSequence?_eq_some_iff.mp hsequence
          intro hstraddles
          apply h
          rw [heq]
          exact hstraddles.append s
        rw [strip_of_sequence hfront, strip_of_sequence hsequence]
        exact ih _ (length_lt_of_afterSequence? hsequence) hrest rfl
      | none =>
        rw [hsequence, Option.map_none] at hfront
        have hl : ¬ Straddles l r := fun hstraddles => h (hstraddles.append [b])
        have htail := ih _ (Nat.lt_succ_self _) hl rfl
        rw [List.cons_append] at hfront
        rw [List.cons_append, strip_cons hfront, strip_cons hsequence, htail, List.cons_append]

/-- Nothing straddles a cut before an escape. -/
theorem not_straddles_escape (l r : List UInt8) : ¬ Straddles l (escape :: r) := by
  rintro ⟨front, u, more, -, hu, hmore, ⟨after, hafter⟩, hs⟩
  obtain ⟨body, hbody, hnot⟩ := hs.exists_body
  obtain ⟨c, more, rfl⟩ := List.exists_cons_of_ne_nil hmore
  obtain ⟨d, u, rfl⟩ := List.exists_cons_of_ne_nil hu
  obtain ⟨rfl, -⟩ := List.cons.inj hafter
  obtain ⟨-, rfl⟩ := List.cons.inj hbody
  exact hnot (List.mem_append_right u List.mem_cons_self)

theorem strip_append_escape (l r : List UInt8) : strip (l ++ escape :: r) = strip l ++ strip (escape :: r) :=
  strip_append_of_not_straddles (not_straddles_escape l r)

/-- **A control sequence is taken out wherever it stands**, and the bytes around it fare as they do without it. -/
theorem IsSequence.strip_append (h : IsSequence s) (front back : List UInt8) :
    strip (front ++ (s ++ back)) = strip front ++ strip back := by
  have hrest := strip_of_sequence (h.afterSequence?_append back)
  obtain ⟨body, rfl, -⟩ := h.exists_body
  rw [List.cons_append] at hrest ⊢
  rw [strip_append_escape, hrest]

/-! ### Cutting what is left -/

/-- **A cut of what is left** comes from a cut of the bytes. -/
theorem exists_cut_of_strip (h : strip bytes = u ++ v) : ∃ l r, bytes = l ++ r ∧ strip l = u ∧ strip r = v := by
  induction hn : bytes.length using Nat.strong_induction_on generalizing bytes u with
  | _ n ih =>
    subst hn
    cases hsequence : afterSequence? bytes with
    | some rest =>
      rw [strip_of_sequence hsequence] at h
      obtain ⟨l, r, rfl, hl, hr⟩ := ih _ (length_lt_of_afterSequence? hsequence) h rfl
      obtain ⟨s, hs, rfl⟩ := afterSequence?_eq_some_iff.mp hsequence
      refine ⟨s ++ l, r, by rw [List.append_assoc], ?_, hr⟩
      rw [strip_of_sequence (hs.afterSequence?_append l), hl]
    | none =>
      cases u with
      | nil => exact ⟨[], bytes, rfl, strip_nil, h⟩
      | cons c u =>
        cases bytes with
        | nil =>
          rw [strip_nil] at h
          cases h
        | cons b bytes =>
          rw [strip_cons hsequence, List.cons_append] at h
          obtain ⟨rfl, htail⟩ := List.cons.inj h
          obtain ⟨l, r, rfl, hl, hr⟩ := ih _ (Nat.lt_succ_self _) htail rfl
          have hfront : afterSequence? (b :: l) = none := by
            refine Option.eq_none_iff_forall_ne_some.mpr fun rest hrest => ?_
            obtain ⟨s, hs, heq⟩ := afterSequence?_eq_some_iff.mp hrest
            rw [← List.cons_append, heq, List.append_assoc, hs.afterSequence?_append] at hsequence
            cases hsequence
          exact ⟨b :: l, r, rfl, by rw [strip_cons hfront, hl], hr⟩

/-! ### Stretches that become control sequences -/

/-- A stretch of which a control sequence is left begins with the escape of it. -/
theorem exists_cons_of_isSequence_strip (h : IsSequence (strip bytes)) : ∃ more, bytes = escape :: more := by
  obtain ⟨body, hbody, -⟩ := h.exists_body
  cases bytes with
  | nil =>
    rw [strip_nil] at hbody
    cases hbody
  | cons b bytes =>
    by_cases hb : b = escape
    · exact ⟨bytes, by rw [hb]⟩
    · rw [strip_cons (afterSequence?_of_ne hb)] at hbody
      exact absurd (List.cons.inj hbody).1 hb

/-- Such a stretch ends with the last byte of it. -/
theorem not_straddles_of_isSequence_strip (h : IsSequence (strip l)) (r : List UInt8) : ¬ Straddles l r := by
  rintro ⟨front, u, more, rfl, hu, hmore, -, hs⟩
  -- the sequence that goes on behind the stretch begins with an escape, and no other escape is left
  obtain ⟨body, hbody, hnot⟩ := hs.exists_body
  obtain ⟨c, u, rfl⟩ := List.exists_cons_of_ne_nil hu
  obtain ⟨rfl, rfl⟩ := List.cons.inj hbody
  have hfront : afterSequence? (escape :: u) = none := by
    refine Option.eq_none_iff_forall_ne_some.mpr fun rest hrest => ?_
    obtain ⟨s, hs', heq⟩ := afterSequence?_eq_some_iff.mp hrest
    rw [heq, List.append_assoc] at hs
    exact hmore (List.append_eq_nil_iff.mp (hs'.eq_nil_of_append hs)).2
  have hback : strip u = u := by
    rw [strip_eq_self_iff]
    exact free_of_notMem fun hmem => hnot (List.mem_append_left more hmem)
  rw [strip_append_escape, strip_cons hfront, hback] at h
  obtain ⟨body', hbody', hnot'⟩ := h.exists_body
  cases hstrip : strip front with
  | nil =>
    rw [hstrip, List.nil_append] at h
    exact hmore (h.eq_nil_of_append hs)
  | cons c before =>
    rw [hstrip, List.cons_append] at hbody'
    obtain ⟨-, rfl⟩ := List.cons.inj hbody'
    exact hnot' (List.mem_append_right before List.mem_cons_self)

/-- **What is left has a control sequence** exactly when some stretch of the bytes becomes one by what is taken out of
it. -/
theorem exists_infix_strip_iff :
    (∃ s, IsSequence s ∧ s <:+: strip bytes) ↔ ∃ torn, torn <:+: bytes ∧ IsSequence (strip torn) := by
  constructor
  · rintro ⟨s, hs, front, back, heq⟩
    obtain ⟨l, r, rfl, hl, -⟩ := exists_cut_of_strip heq.symm
    obtain ⟨front', torn, rfl, -, htorn⟩ := exists_cut_of_strip hl
    refine ⟨torn, List.infix_append front' torn r, ?_⟩
    rw [htorn]
    exact hs
  · rintro ⟨torn, ⟨front, back, rfl⟩, hs⟩
    refine ⟨strip torn, hs, strip front, strip back, ?_⟩
    have hright := strip_append_of_not_straddles (not_straddles_of_isSequence_strip hs back)
    obtain ⟨more, rfl⟩ := exists_cons_of_isSequence_strip hs
    rw [List.append_assoc front, List.cons_append, strip_append_escape, ← List.cons_append, hright,
      List.append_assoc (strip front)]

/-- **One pass takes out every control sequence, and nothing else.** Each one is taken out wherever it stands, and bytes
without any are left as they are. What is left has a control sequence only where the bytes of a stretch, with the
sequences between them taken out, make one up; without such a stretch, and only then, a second pass finds nothing. -/
theorem strip_takes_out_sequences (bytes : List UInt8) :
    (∀ front s back, bytes = front ++ (s ++ back) ∧ IsSequence s → strip bytes = strip front ++ strip back) ∧
      (strip bytes = bytes ↔ ∀ s, IsSequence s → ¬ s <:+: bytes) ∧
      ((∃ s, IsSequence s ∧ s <:+: strip bytes) ↔ ∃ torn, torn <:+: bytes ∧ IsSequence (strip torn)) ∧
      (strip (strip bytes) = strip bytes ↔ ¬ ∃ torn, torn <:+: bytes ∧ IsSequence (strip torn)) := by
  refine ⟨?_, ?_, exists_infix_strip_iff, ?_⟩
  · rintro front s back ⟨rfl, hs⟩
    exact hs.strip_append front back
  · rw [strip_eq_self_iff, free_iff_not_infix]
  · rw [strip_eq_self_iff, free_iff_not_infix, ← exists_infix_strip_iff, not_exists]
    simp only [not_and]

/-- The escape that a sequence separates from its bracket: the bytes of the two sides are one sequence, which a second
pass would take out. -/
theorem strip_joins_torn_sequence :
    strip [0x1B, 0x1B, 0x5B, 0x30, 0x6D, 0x5B, 0x33, 0x31, 0x6D, 0x78] = [0x1B, 0x5B, 0x33, 0x31, 0x6D, 0x78] ∧
      (∃ s, IsSequence s ∧ s <:+: strip [0x1B, 0x1B, 0x5B, 0x30, 0x6D, 0x5B, 0x33, 0x31, 0x6D, 0x78]) ∧
      strip (strip [0x1B, 0x1B, 0x5B, 0x30, 0x6D, 0x5B, 0x33, 0x31, 0x6D, 0x78]) ≠
        strip [0x1B, 0x1B, 0x5B, 0x30, 0x6D, 0x5B, 0x33, 0x31, 0x6D, 0x78] := by
  have hreset : IsSequence [0x1B, 0x5B, 0x30, 0x6D] :=
    ⟨[0x30], [], 0x6D, rfl, List.forall_mem_singleton.mpr (by decide), List.forall_mem_nil _, by decide⟩
  have hred : IsSequence [0x1B, 0x5B, 0x33, 0x31, 0x6D] :=
    ⟨[0x33, 0x31], [], 0x6D, rfl, List.forall_mem_cons.mpr ⟨by decide, List.forall_mem_singleton.mpr (by decide)⟩,
      List.forall_mem_nil _, by decide⟩
  have hescape : strip [0x1B] = [0x1B] := by
    have hnone : afterSequence? [0x1B] = none := rfl
    rw [strip_cons hnone, strip_nil]
  have hback : strip [0x5B, 0x33, 0x31, 0x6D, 0x78] = [0x5B, 0x33, 0x31, 0x6D, 0x78] :=
    strip_eq_self_iff.mpr (free_of_notMem (by decide))
  have hleft : strip [0x1B, 0x1B, 0x5B, 0x30, 0x6D, 0x5B, 0x33, 0x31, 0x6D, 0x78] =
      [0x1B, 0x5B, 0x33, 0x31, 0x6D, 0x78] := by
    have hcut := hreset.strip_append [0x1B] [0x5B, 0x33, 0x31, 0x6D, 0x78]
    rwa [hescape, hback] at hcut
  have hagain : strip [0x1B, 0x5B, 0x33, 0x31, 0x6D, 0x78] = [0x78] := by
    have hlast : strip [0x78] = [0x78] := strip_eq_self_iff.mpr (free_of_notMem (by decide))
    have hcut := hred.strip_append [] [0x78]
    rwa [strip_nil, hlast] at hcut
  rw [hleft, hagain]
  exact ⟨rfl, ⟨_, hred, ⟨[], [0x78], rfl⟩⟩, by decide⟩

end LegibleLog.Csi
