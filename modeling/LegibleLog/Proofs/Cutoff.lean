import LegibleLog.Proofs.Verbatim
import Mathlib.Data.List.DropRight

/-!
# Where a failure cuts a stream

* `pieces_append_lineFeed`, `pieces_flatMap` — the pieces of a stream, one after the other and all at once;
* `Source.settled` — the bytes of a source whose lines are read, a failure or not; `Source.lines_settled` says that
  without the failure they give the same lines;
* `Sink.ending` — how a sink ends what is written to it; `failure_runStream` says that a stream ends so;
* `runStream_of_lt`, `runStream_of_le` — a stream with too little room for its output, and with enough.
-/

namespace LegibleLog

variable {ε : Type}

/-! ### Lines one by one -/

theorem piecesFrom_append {line : List UInt8} (h : lineFeed ∉ line) (done : List (List UInt8))
    (current rest : List UInt8) :
    piecesFrom done current (line ++ rest) = piecesFrom done (line.reverse ++ current) rest := by
  induction line generalizing current with
  | nil => rfl
  | cons b line ih =>
    rw [List.mem_cons, not_or] at h
    rw [List.cons_append, piecesFrom, if_neg (Ne.symm h.1), ih h.2, List.reverse_cons, List.append_assoc]
    rfl

theorem piecesFrom_done (done : List (List UInt8)) (current bytes : List UInt8) :
    piecesFrom done current bytes =
      (done.reverse ++ (piecesFrom [] current bytes).1, (piecesFrom [] current bytes).2) := by
  induction bytes generalizing done current with
  | nil => simp [piecesFrom]
  | cons b rest ih =>
    rw [piecesFrom, piecesFrom]
    split
    · rw [ih (current.reverse :: done), ih [current.reverse]]
      simp
    · exact ih done (b :: current)

theorem pieces_of_notMem {line : List UInt8} (h : lineFeed ∉ line) : pieces line = ([], line) := by
  have hline := piecesFrom_append h [] [] []
  rw [List.append_nil, List.append_nil] at hline
  rw [pieces, hline, piecesFrom, List.reverse_reverse]
  rfl

/-- The first line feed ends the first piece. -/
theorem pieces_append_lineFeed {line : List UInt8} (h : lineFeed ∉ line) (rest : List UInt8) :
    pieces (line ++ lineFeed :: rest) = (line :: (pieces rest).1, (pieces rest).2) := by
  rw [pieces, piecesFrom_append h, piecesFrom, if_pos rfl, piecesFrom_done, List.append_nil, List.reverse_reverse]
  rfl

namespace Source

variable {line : List UInt8} {failure : Option ε}

theorem lines_append_lineFeed (h : lineFeed ∉ line) (rest : List UInt8) :
    lines ⟨line ++ lineFeed :: rest, failure⟩ = chomp line :: lines ⟨rest, failure⟩ := by
  cases failure with
  | none =>
    simp only [lines, linesOf, pieces_append_lineFeed h]
    split <;> rfl
  | some e =>
    simp only [lines, finishedLines, pieces_append_lineFeed h]
    rfl

/-- An unfinished line is one at the end of a source only. -/
theorem lines_of_notMem (h : lineFeed ∉ line) :
    lines ⟨line, failure⟩ = if failure.isSome || line.isEmpty then [] else [chomp line] := by
  cases failure with
  | none =>
    simp only [lines, linesOf, pieces_of_notMem h]
    cases line <;> rfl
  | some e =>
    simp only [lines, finishedLines, pieces_of_notMem h]
    rfl

end Source

/-- The pieces of finished lines and of what follows them are these again. -/
theorem pieces_flatMap {lines : List (List UInt8)} {line : List UInt8} (h : ∀ l ∈ lines, lineFeed ∉ l)
    (hline : lineFeed ∉ line) : pieces (lines.flatMap (· ++ [lineFeed]) ++ line) = (lines, line) := by
  induction lines with
  | nil => exact pieces_of_notMem hline
  | cons first lines ih =>
    rw [List.forall_mem_cons] at h
    have hsplit : (first :: lines).flatMap (· ++ [lineFeed]) ++ line =
        first ++ lineFeed :: (lines.flatMap (· ++ [lineFeed]) ++ line) := by
      simp
    rw [hsplit, pieces_append_lineFeed h.1, ih h.2]

/-! ### What is read before a failure -/

/-- The bytes that a source gives for good: all of them, or, when it fails, those up to the last line feed. -/
def Source.settled (source : Source ε) : List UInt8 :=
  match source.failure with
  | some _ => source.bytes.rdropWhile (· ≠ lineFeed)
  | none => source.bytes

theorem rdropWhile_eq_flatMap_pieces (bytes : List UInt8) :
    bytes.rdropWhile (· ≠ lineFeed) = (pieces bytes).1.flatMap (· ++ [lineFeed]) := by
  obtain ⟨-, hrest⟩ := lineFeed_notMem_pieces bytes
  have hbytes := (flatMap_pieces bytes).symm
  generalize pieces bytes = split at *
  obtain ⟨ended, line⟩ := split
  have hline : ∀ b ∈ line.reverse, decide (b ≠ lineFeed) = true := by
    intro b hb
    refine decide_eq_true ?_
    rintro rfl
    exact hrest (List.mem_reverse.mp hb)
  rw [hbytes, List.rdropWhile, List.reverse_append, List.dropWhile_append_of_pos hline]
  -- what is left is nothing, or it has a line feed at its end
  cases ended using List.reverseRecOn with
  | nil => rfl
  | append_singleton ended last => simp

/-- **Read before a failure.** The lines of a source that fails are those of what it gives for good. -/
theorem Source.lines_settled (source : Source ε) : lines (⟨source.settled, none⟩ : Source ε) = source.lines := by
  obtain ⟨bytes, failure⟩ := source
  cases failure with
  | none => rfl
  | some e =>
    have hpieces := pieces_flatMap (lineFeed_notMem_pieces bytes).1 List.not_mem_nil
    rw [List.append_nil] at hpieces
    simp only [lines, settled, linesOf, finishedLines, rdropWhile_eq_flatMap_pieces, hpieces]
    rfl

/-! ### How a stream ends -/

/-- How it ends when bytes are written, and `failure` is what comes after them. -/
def Sink.ending (sink : Sink ε) (failure : Option ε) (bytes : List UInt8) : Option ε :=
  match sink.room with
  | none => failure
  | some n => if bytes.length ≤ n then failure else some sink.failure

theorem Sink.accepted_of_room (sink : Sink ε) {bytes : List UInt8} (h : ∀ n ∈ sink.room, bytes.length ≤ n) :
    sink.accepted bytes = bytes := by
  unfold accepted
  split
  · rfl
  · next n hn => exact List.take_of_length_le (h n hn)

theorem Sink.ending_of_room (sink : Sink ε) (failure : Option ε) {bytes : List UInt8}
    (h : ∀ n ∈ sink.room, bytes.length ≤ n) : sink.ending failure bytes = failure := by
  unfold ending
  split
  · rfl
  · next n hn => exact if_pos (h n hn)

theorem failure_writeLines (o : Options) (sink : Sink ε) (failure : Option ε) (lines : List (List UInt8))
    (done : List (List UInt8)) (room : Option Nat) (s : StreamState) :
    (writeLines o sink failure done room s lines).failure =
      Sink.ending ⟨room, sink.failure⟩ failure (s.outputs o lines).flatten := by
  induction lines generalizing done room s with
  | nil => cases room <;> simp [writeLines, Sink.ending, StreamState.outputs]
  | cons line rest ih =>
    rw [StreamState.outputs, List.flatten_cons]
    cases room with
    | none => simp [writeLines, ih, Sink.ending]
    | some n =>
      rw [writeLines]
      dsimp only
      split
      · next hroom =>
        rw [ih]
        simp only [Sink.ending, List.length_append]
        congr 1
        exact propext ⟨fun h => by omega, fun h => by omega⟩
      · next hroom =>
        have hmore : ¬ ((s.step o line).1 ++ ((s.step o line).2.outputs o rest).flatten).length ≤ n := by
          rw [List.length_append]
          omega
        exact (if_neg hmore).symm

/-- **The end.** A stream ends as its source does, or in a failure of the sink, when there is no room for what its lines
give. -/
theorem failure_runStream (o : Options) (s : StreamState) (source : Source ε) (sink : Sink ε) :
    (runStream o s source sink).failure = sink.ending source.failure (s.outputs o source.lines).flatten := by
  rw [runStream, failure_writeLines]

/-! ### Too little room, and enough -/

section Room

variable {o : Options} {s : StreamState} {source : Source ε} {room : Nat} {failure : ε}

/-- The output of a source without its failure, where there is room for all. -/
theorem output_settled (o : Options) (s : StreamState) (source : Source ε) (failure : ε) :
    (runStream o s ⟨source.settled, none⟩ ⟨none, failure⟩).output = (s.outputs o source.lines).flatten := by
  rw [output_runStream, source.lines_settled]
  rfl

theorem runStream_of_lt (h : room < (s.outputs o source.lines).flatten.length) :
    (runStream o s source ⟨some room, failure⟩).failure = some failure ∧
      (runStream o s source ⟨some room, failure⟩).output = (s.outputs o source.lines).flatten.take room := by
  rw [failure_runStream, output_runStream]
  exact ⟨if_neg (Nat.not_le.mpr h), rfl⟩

theorem runStream_of_le (h : (s.outputs o source.lines).flatten.length ≤ room) :
    (runStream o s source ⟨some room, failure⟩).failure = source.failure ∧
      (runStream o s source ⟨some room, failure⟩).output = (s.outputs o source.lines).flatten := by
  rw [failure_runStream, output_runStream]
  exact ⟨if_pos h, List.take_of_length_le h⟩

end Room

end LegibleLog
