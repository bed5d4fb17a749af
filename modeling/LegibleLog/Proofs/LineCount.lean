import LegibleLog.Proofs.Unbroken
import LegibleLog.Text.Utf8

/-!
# As many lines as before

* `lineCount bytes` — how many lines a stream has, and `length_linesOf`: so many are read;
* `runStream_of_ended` — a stream that does not fail is read to its end, and all that is written for its lines is its
  output;
* `IsLine` — one line and its line feed; `StreamState.isLine_step_iff` tells when this is written for a line, and
  `StreamState.isLine_outputs_iff` when for all lines of a run;
* `StreamState.unbroken_runParts_iff` — in a new state, only what events show matters;
* `count_lineFeed_runStream` — a stream keeps its number of lines exactly when no event shows a line feed.
-/

namespace LegibleLog

/-! ### Lines of a stream -/

/-- How many lines a stream has: the pieces that line feeds separate, without an empty one at the end. -/
def lineCount (bytes : List UInt8) : Nat :=
  let pieces := bytes.splitOn lineFeed
  if pieces.getLast? = some [] then pieces.length - 1 else pieces.length

theorem piecesFrom_eq (done : List (List UInt8)) (current bytes : List UInt8) :
    (piecesFrom done current bytes).1 ++ [(piecesFrom done current bytes).2] =
      done.reverse ++ bytes.splitOnPPrepend (· == lineFeed) current := by
  induction bytes generalizing done current with
  | nil => rw [piecesFrom, List.splitOnPPrepend_nil]
  | cons b rest ih =>
    rw [piecesFrom]
    split
    · next hb =>
      rw [ih, List.splitOnPPrepend_cons_pos (by simpa using hb), List.reverse_cons, List.append_assoc]
      rfl
    · next hb => rw [ih, List.splitOnPPrepend_cons_neg (by simpa using hb)]

/-- The pieces of a stream, and the rest, are what line feeds separate. -/
theorem pieces_eq (bytes : List UInt8) : (pieces bytes).1 ++ [(pieces bytes).2] = bytes.splitOn lineFeed := by
  rw [List.splitOn_eq_splitOnP, List.splitOnP_eq_splitOnPPrepend]
  exact piecesFrom_eq [] [] bytes

theorem length_linesOf (bytes : List UInt8) : (linesOf bytes).length = lineCount bytes := by
  rw [lineCount, ← pieces_eq, List.getLast?_concat, List.length_append, List.length_singleton, Nat.add_sub_cancel]
  simp only [linesOf, List.length_map, Option.some.injEq, List.isEmpty_iff]
  split
  · rfl
  · rw [List.length_append, List.length_singleton]

theorem lineFeed_notMem_piecesFrom {done : List (List UInt8)} {current : List UInt8} (bytes : List UInt8)
    (hdone : ∀ piece ∈ done, lineFeed ∉ piece) (hcurrent : lineFeed ∉ current) :
    (∀ piece ∈ (piecesFrom done current bytes).1, lineFeed ∉ piece) ∧
      lineFeed ∉ (piecesFrom done current bytes).2 := by
  induction bytes generalizing done current with
  | nil => exact ⟨fun piece h => hdone piece (List.mem_reverse.mp h), mt List.mem_reverse.mp hcurrent⟩
  | cons b rest ih =>
    rw [piecesFrom]
    split
    · refine ih (List.forall_mem_cons.mpr ⟨?_, hdone⟩) List.not_mem_nil
      exact mt List.mem_reverse.mp hcurrent
    · next hb =>
      refine ih hdone ?_
      rw [List.mem_cons, not_or]
      exact ⟨fun h => hb h.symm, hcurrent⟩

theorem lineFeed_notMem_pieces (bytes : List UInt8) :
    (∀ piece ∈ (pieces bytes).1, lineFeed ∉ piece) ∧ lineFeed ∉ (pieces bytes).2 :=
  lineFeed_notMem_piecesFrom bytes (List.forall_mem_nil _) List.not_mem_nil

theorem mem_of_mem_chomp {b : UInt8} {line : List UInt8} (h : b ∈ chomp line) : b ∈ line := by
  unfold chomp at h
  split at h
  · exact List.dropLast_subset line h
  · exact h

/-- No line that is read has a line feed. -/
theorem lineFeed_notMem_of_mem_linesOf {bytes line : List UInt8} (h : line ∈ linesOf bytes) : lineFeed ∉ line := by
  obtain ⟨hended, hrest⟩ := lineFeed_notMem_pieces bytes
  obtain ⟨piece, hpiece, rfl⟩ := List.mem_map.mp h
  refine mt mem_of_mem_chomp ?_
  split at hpiece
  · exact hended piece hpiece
  · rcases List.mem_append.mp hpiece with hp | hp
    · exact hended piece hp
    · rw [List.mem_singleton.mp hp]
      exact hrest

/-! ### Streams that end well -/

/-- Lines that are written without a failure are all written. -/
theorem writeLines_of_ended {ε : Type} {o : Options} {sink : Sink ε} {failure : Option ε} {lines : List (List UInt8)}
    {done : List (List UInt8)} {room : Option Nat} {s : StreamState}
    (h : (writeLines o sink failure done room s lines).failure = none) :
    failure = none ∧
      (writeLines o sink failure done room s lines).output = done.reverse.flatten ++ (s.outputs o lines).flatten := by
  induction lines generalizing done room s with
  | nil =>
    refine ⟨h, ?_⟩
    rw [writeLines, StreamState.outputs, List.flatten_nil, List.append_nil]
  | cons line rest ih =>
    have hnext : ∀ room, (writeLines o sink failure ((s.step o line).1 :: done) room (s.step o line).2 rest).failure =
          none → failure = none ∧
        (writeLines o sink failure ((s.step o line).1 :: done) room (s.step o line).2 rest).output =
          done.reverse.flatten ++ (s.outputs o (line :: rest)).flatten := by
      intro room hroom
      obtain ⟨hfailure, hout⟩ := ih hroom
      refine ⟨hfailure, ?_⟩
      rw [hout, StreamState.outputs, List.reverse_cons, List.flatten_append, List.flatten_singleton,
        List.flatten_cons, List.append_assoc]
    cases room with
    | none => exact hnext none h
    | some n =>
      rw [writeLines] at h ⊢
      dsimp only at h ⊢
      split at h
      · next hroom =>
        rw [if_pos hroom]
        exact hnext _ h
      · cases h

/-- A stream without a failure is read to its end, and what is written for its lines is its output. -/
theorem runStream_of_ended {ε : Type} {o : Options} {s : StreamState} {source : Source ε} {sink : Sink ε}
    (h : (runStream o s source sink).failure = none) :
    source.lines = linesOf source.bytes ∧
      (runStream o s source sink).output = (s.outputs o source.lines).flatten := by
  obtain ⟨hfailure, hout⟩ := writeLines_of_ended h
  refine ⟨?_, hout⟩
  rw [Source.lines, hfailure]

/-! ### Lines that are written -/

/-- One line: no line feed but the last byte. -/
def IsLine (bytes : List UInt8) : Prop := ∃ text, bytes = text ++ [lineFeed] ∧ lineFeed ∉ text

theorem isLine_snoc_iff {text : List UInt8} : IsLine (text ++ [lineFeed]) ↔ lineFeed ∉ text := by
  constructor
  · rintro ⟨other, heq, hother⟩
    rwa [List.append_cancel_right heq]
  · intro h
    exact ⟨text, rfl, h⟩

/-- Pieces that end in line feeds have as many line feeds as there are pieces, or more. -/
theorem count_lineFeed_flatten {outs : List (List UInt8)} (h : ∀ out ∈ outs, ∃ text, out = text ++ [lineFeed]) :
    outs.length ≤ outs.flatten.count lineFeed ∧
      (outs.flatten.count lineFeed = outs.length ↔ ∀ out ∈ outs, IsLine out) := by
  induction outs with
  | nil => exact ⟨Nat.le_refl _, iff_of_true rfl (List.forall_mem_nil _)⟩
  | cons out rest ih =>
    obtain ⟨⟨text, rfl⟩, hrest⟩ := List.forall_mem_cons.mp h
    obtain ⟨hle, heq⟩ := ih hrest
    rw [List.forall_mem_cons, isLine_snoc_iff, ← heq, List.flatten_cons, List.count_append, List.count_append,
      List.count_singleton_self, List.length_cons, ← List.count_eq_zero]
    omega

namespace StreamState

variable {o : Options} {s : StreamState}

/-- The parts that are shown for a line; a line that is written as it is has none. -/
def shownParts (o : Options) (s : StreamState) (line : List UInt8) : List Part :=
  match eventOf? o line with
  | some (shape, e) =>
    let s := s.enter shape.format
    o.parts (o.skipUnchanged && s.prior == some shape.format) (s.memory.get shape.format) e
  | none => []

/-- The parts that are shown for lines one after the other. -/
def runParts (o : Options) : StreamState → List (List UInt8) → List Part
  | _, [] => []
  | s, line :: lines => s.shownParts o line ++ runParts o (s.step o line).2 lines

/-- **One line.** One line is written for a line exactly when no part that is shown has a line feed. -/
theorem isLine_step_iff {line : List UInt8} (h : lineFeed ∉ line) :
    IsLine (s.step o line).1 ↔ ∀ p ∈ s.shownParts o line, p.Unbroken := by
  unfold shownParts
  cases hline : eventOf? o line with
  | none =>
    rw [step_of_none hline, isLine_snoc_iff]
    exact iff_of_true h (List.forall_mem_nil _)
  | some found =>
    rw [step_of_event hline, isLine_snoc_iff, ← Text.unbroken_iff_encode]
    exact Options.unbroken_partsText_iff _

theorem exists_step_eq (o : Options) (s : StreamState) (line : List UInt8) :
    ∃ text, (s.step o line).1 = text ++ [lineFeed] := by
  unfold step
  split
  · exact ⟨_, rfl⟩
  · exact ⟨_, rfl⟩

theorem exists_eq_of_mem_outputs {lines : List (List UInt8)} {out : List UInt8} (h : out ∈ s.outputs o lines) :
    ∃ text, out = text ++ [lineFeed] := by
  induction lines generalizing s with
  | nil => cases h
  | cons line rest ih =>
    rcases List.mem_cons.mp h with rfl | hrest
    · exact exists_step_eq o s line
    · exact ih hrest

@[simp]
theorem length_outputs (o : Options) (s : StreamState) (lines : List (List UInt8)) :
    (s.outputs o lines).length = lines.length := by
  induction lines generalizing s with
  | nil => rfl
  | cons line rest ih => rw [outputs, List.length_cons, List.length_cons, ih]

/-- **A whole run.** One line is written for each line exactly when no part that is shown has a line feed. -/
theorem isLine_outputs_iff {lines : List (List UInt8)} (h : ∀ line ∈ lines, lineFeed ∉ line) :
    (∀ out ∈ s.outputs o lines, IsLine out) ↔ ∀ p ∈ s.runParts o lines, p.Unbroken := by
  induction lines generalizing s with
  | nil => exact iff_of_true (List.forall_mem_nil _) (List.forall_mem_nil _)
  | cons line rest ih =>
    obtain ⟨hline, hrest⟩ := List.forall_mem_cons.mp h
    rw [outputs, runParts, List.forall_mem_cons, List.forall_mem_append, isLine_step_iff hline, ih hrest]

theorem shownParts_of_recalls {before : Option (Shape × Event)} (h : Recalls s before) {line : List UInt8}
    {shape : Shape} {e : Event} (hline : eventOf? o line = some (shape, e)) :
    s.shownParts o line = o.partsAfter before shape e := by
  simp only [shownParts, hline]
  exact parts_of_recalls h shape e

/-- In a state after an event that shows no line feed, only what the events of the lines show matters: the next line
again comes after such an event. -/
theorem unbroken_runParts_iff {before : Option (Shape × Event)} (h : Recalls s before)
    (hbefore : ∀ b ∈ before, o.ShowsUnbroken b.2) (lines : List (List UInt8)) :
    (∀ p ∈ s.runParts o lines, p.Unbroken) ↔
      ∀ line ∈ lines, ∀ found ∈ eventOf? o line, o.ShowsUnbroken found.2 := by
  induction lines generalizing s before with
  | nil => exact iff_of_true (List.forall_mem_nil _) (List.forall_mem_nil _)
  | cons line rest ih =>
    have hshown : (∀ p ∈ s.shownParts o line, p.Unbroken) ↔ ∀ found ∈ eventOf? o line, o.ShowsUnbroken found.2 := by
      cases hline : eventOf? o line with
      | none => simp [shownParts, hline]
      | some found =>
        rw [shownParts_of_recalls h hline, Options.unbroken_partsAfter_iff hbefore]
        simp
    rw [runParts, List.forall_mem_append, List.forall_mem_cons, hshown]
    refine and_congr_right fun hclean => ?_
    exact ih (recalls_step h line) hclean

end StreamState

/-! ### Whole streams -/

/-- **The number of lines.** When a stream ends without a failure, something ended by a line feed is written for each of
its lines. The output has as many line feeds as the stream has lines, and one line is written for each line, exactly
when no part that is shown has a line feed; in a new state, exactly when no event of a line shows one. -/
theorem count_lineFeed_runStream {ε : Type} (o : Options) (s : StreamState) (source : Source ε) (sink : Sink ε)
    (h : (runStream o s source sink).failure = none) :
    ((runStream o s source sink).output = (s.outputs o source.lines).flatten ∧
        (s.outputs o source.lines).length = lineCount source.bytes) ∧
      ((runStream o s source sink).output.count lineFeed = lineCount source.bytes ↔
        ∀ p ∈ s.runParts o source.lines, p.Unbroken) ∧
      ((∀ out ∈ s.outputs o source.lines, IsLine out) ↔ ∀ p ∈ s.runParts o source.lines, p.Unbroken) ∧
      (s = {} → ((∀ p ∈ s.runParts o source.lines, p.Unbroken) ↔
        ∀ line ∈ linesOf source.bytes, ∀ found ∈ StreamState.eventOf? o line, o.ShowsUnbroken found.2)) := by
  obtain ⟨hlines, hout⟩ := runStream_of_ended h
  have hlength : (s.outputs o source.lines).length = lineCount source.bytes := by
    rw [StreamState.length_outputs, hlines, length_linesOf]
  have heach : (∀ out ∈ s.outputs o source.lines, IsLine out) ↔ ∀ p ∈ s.runParts o source.lines, p.Unbroken := by
    rw [hlines]
    exact StreamState.isLine_outputs_iff fun line hline => lineFeed_notMem_of_mem_linesOf hline
  have hended : ∀ out ∈ s.outputs o source.lines, ∃ text, out = text ++ [lineFeed] :=
    fun _ => StreamState.exists_eq_of_mem_outputs
  refine ⟨⟨hout, hlength⟩, ?_, heach, ?_⟩
  · rw [hout, ← hlength, (count_lineFeed_flatten hended).2, heach]
  · rintro rfl
    rw [hlines]
    exact StreamState.unbroken_runParts_iff StreamState.recalls_new (fun _ hb => nomatch hb) _

/-- Two events and a line that is written as it is, in a new state. -/
theorem count_lineFeed_runStream_three :
    let source : Source Unit := ⟨Text.encode "\x7b\"msg\":\"a\"\x7d\nk=v\nplain", none⟩
    let outcome := runStream {} {} source ⟨none, ()⟩
    outcome.failure = none ∧ outcome.output.count lineFeed = lineCount source.bytes ∧ lineCount source.bytes = 3 := by
  intro source outcome
  have hended : outcome.failure = none := by decide +kernel
  have hevents : ∀ line ∈ linesOf source.bytes, ∀ found ∈ StreamState.eventOf? {} line,
      ({} : Options).ShowsUnbroken found.2 := by decide +kernel
  obtain ⟨-, hcount, -, hnew⟩ := count_lineFeed_runStream {} {} source ⟨none, ()⟩ hended
  exact ⟨hended, hcount.mpr ((hnew rfl).mpr hevents), by decide +kernel⟩

/-- The event of the one line of this stream shows a line feed, which its message has as an escape: two lines come of
it. -/
theorem runStream_breaks_line_of_message :
    let source : Source Unit := ⟨Text.encode "\x7b\"msg\":\"a\\nb\"\x7d\n", none⟩
    let outcome := runStream {} {} source ⟨none, ()⟩
    outcome.failure = none ∧ outcome.output.count lineFeed = 2 ∧ lineCount source.bytes = 1 := by
  decide +kernel

end LegibleLog
