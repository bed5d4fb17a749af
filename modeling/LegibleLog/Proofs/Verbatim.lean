import LegibleLog.Proofs.LineCount
import LegibleLog.Proofs.Shapes

/-!
# Lines that are written as they are

* `RawLine` — a line as it stands in a stream, with or without a line feed at its end; `RawLine.body` is the line
  without its own end, and `areLines_rawLines` says that `rawLines bytes` are the lines of a stream;
* `Unrecognized` — no shape takes a line, or it is too long to be looked at;
* `output_runStream` — the output of a stream is what its lines give, as far as there is room;
* `unrecognized_written_verbatim` — an unrecognized line is written as it stands in the stream without its own end,
  unless it is an unfinished line with a carriage return at its end, which loses this return.
-/

namespace LegibleLog

/-! ### Lines with their ends -/

/-- A line as it stands in a stream: its text, and whether a line feed ends it. -/
structure RawLine where
  text : List UInt8
  ended : Bool
deriving DecidableEq

namespace RawLine

/-- The bytes of a line with its line feed. -/
def bytes (l : RawLine) : List UInt8 := if l.ended then l.text ++ [lineFeed] else l.text

/-- A line without its own end, a line feed or a carriage return and a line feed. -/
def body (l : RawLine) : List UInt8 := if l.ended then chomp l.text else l.text

/-- A carriage return stands at the end of the line, and no line feed follows it. -/
def LoneReturn (l : RawLine) : Prop := l.ended = false ∧ l.text.getLast? = some carriageReturn

instance (l : RawLine) : Decidable l.LoneReturn := by
  unfold LoneReturn
  infer_instance

theorem chomp_text_of_not_loneReturn {l : RawLine} (h : ¬ l.LoneReturn) : chomp l.text = l.body := by
  unfold body
  split
  · rfl
  · next hended => exact if_neg fun hlast => h ⟨Bool.eq_false_iff.mpr hended, hlast⟩

theorem LoneReturn.chomp_text {l : RawLine} (h : l.LoneReturn) : chomp l.text = l.body.dropLast := by
  rw [chomp, if_pos h.2, body, h.1, if_neg Bool.false_ne_true]

theorem LoneReturn.dropLast_ne {l : RawLine} (h : l.LoneReturn) : l.body.dropLast ≠ l.body := by
  intro heq
  have hlen := congrArg List.length heq
  have hne : l.body ≠ [] := by
    intro hnil
    have hlast := h.2
    rw [body, h.1, if_neg Bool.false_ne_true] at hnil
    rw [hnil] at hlast
    cases hlast
  have hpos := List.length_pos_iff.mpr hne
  rw [List.length_dropLast] at hlen
  omega

end RawLine

/-- These are the lines of a stream: together they are the stream, a line feed stands nowhere but at their ends, and
only the last of them may go without, if it is not empty. -/
structure AreLines (lines : List RawLine) (bytes : List UInt8) : Prop where
  joined : lines.flatMap RawLine.bytes = bytes
  unbroken : ∀ l ∈ lines, lineFeed ∉ l.text
  ended : ∀ l ∈ lines.dropLast, l.ended = true
  nonempty : ∀ l ∈ lines, l.ended = false → l.text ≠ []

/-- The lines of a stream as they stand there. -/
def rawLines (bytes : List UInt8) : List RawLine :=
  let (ended, rest) := pieces bytes
  ended.map (⟨·, true⟩) ++ if rest.isEmpty then [] else [⟨rest, false⟩]

theorem flatMap_piecesFrom (done : List (List UInt8)) (current bytes : List UInt8) :
    (piecesFrom done current bytes).1.flatMap (· ++ [lineFeed]) ++ (piecesFrom done current bytes).2 =
      done.reverse.flatMap (· ++ [lineFeed]) ++ (current.reverse ++ bytes) := by
  induction bytes generalizing done current with
  | nil => rw [piecesFrom, List.append_nil]
  | cons b rest ih =>
    rw [piecesFrom]
    split
    · next hb => simp [ih, hb]
    · simp [ih]

/-- The pieces with their line feeds, and the rest, are the whole. -/
theorem flatMap_pieces (bytes : List UInt8) :
    (pieces bytes).1.flatMap (· ++ [lineFeed]) ++ (pieces bytes).2 = bytes :=
  flatMap_piecesFrom [] [] bytes

theorem areLines_rawLines (bytes : List UInt8) : AreLines (rawLines bytes) bytes := by
  obtain ⟨hended, hrest⟩ := lineFeed_notMem_pieces bytes
  have hjoin := flatMap_pieces bytes
  unfold rawLines
  generalize pieces bytes = split at *
  obtain ⟨ended, rest⟩ := split
  have htrue : ∀ l ∈ ended.map (RawLine.mk · true), l.ended = true ∧ lineFeed ∉ l.text := by
    intro l hl
    obtain ⟨text, htext, rfl⟩ := List.mem_map.mp hl
    exact ⟨rfl, hended text htext⟩
  have hbytes : (ended.map (RawLine.mk · true)).flatMap RawLine.bytes = ended.flatMap (· ++ [lineFeed]) := by
    rw [List.flatMap_map]
    rfl
  cases rest with
  | nil =>
    simp only [List.isEmpty_nil, if_true, List.append_nil]
    refine ⟨?_, fun l hl => (htrue l hl).2, fun l hl => (htrue l (List.dropLast_subset _ hl)).1, fun l hl hno => ?_⟩
    · simpa [hbytes] using hjoin
    · rw [(htrue l hl).1] at hno
      cases hno
  | cons b rest =>
    simp only [List.isEmpty_cons, Bool.false_eq_true, if_false]
    refine ⟨?_, ?_, ?_, ?_⟩
    · simpa [List.flatMap_append, hbytes, RawLine.bytes] using hjoin
    · intro l hl
      rcases List.mem_append.mp hl with hl | hl
      · exact (htrue l hl).2
      · rw [List.mem_singleton.mp hl]
        exact hrest
    · rw [List.dropLast_concat]
      exact fun l hl => (htrue l hl).1
    · intro l hl hno
      rcases List.mem_append.mp hl with hl | hl
      · rw [(htrue l hl).1] at hno
        cases hno
      · rw [List.mem_singleton.mp hl]
        exact List.cons_ne_nil b rest

/-- The lines that a source gives, as they stand there; after a failure an unfinished line is not one. -/
def Source.rawLines {ε : Type} (source : Source ε) : List RawLine :=
  match source.failure with
  | some _ => (LegibleLog.rawLines source.bytes).filter (·.ended)
  | none => LegibleLog.rawLines source.bytes

theorem Source.lines_eq {ε : Type} (source : Source ε) : source.lines = source.rawLines.map (chomp ·.text) := by
  unfold Source.lines Source.rawLines finishedLines linesOf LegibleLog.rawLines
  generalize pieces source.bytes = split
  obtain ⟨ended, rest⟩ := split
  cases source.failure with
  | none => cases rest <;> simp [Function.comp_def]
  | some e => cases rest <;> simp [List.filter_append, List.filter_map, Function.comp_def]

/-! ### Lines without a shape -/

/-- No shape takes the line, its tag taken off, or it is too long to be looked at. -/
def Unrecognized (o : Options) (line : List UInt8) : Prop :=
  maxLineLength < line.length ∨ ∀ shape e, Shape.event shape o.roles (Cee.strip line) ≠ .ok e

theorem recognize?_eq_none_iff {rules : RoleRules} {line : List UInt8} :
    recognize? rules line = none ↔ ∀ shape e, Shape.event shape rules line ≠ .ok e := by
  rw [recognize?, List.findSome?_eq_none_iff]
  constructor
  · intro h shape e he
    have hnone := h shape (Shape.mem_all shape)
    rw [he] at hnone
    cases hnone
  · intro h shape _
    cases he : Shape.event shape rules line with
    | ok e => exact absurd he (h shape e)
    | error _ => rfl

theorem eventOf?_eq_none_iff {o : Options} {line : List UInt8} :
    StreamState.eventOf? o line = none ↔ Unrecognized o line := by
  unfold StreamState.eventOf? Unrecognized
  by_cases hlong : maxLineLength < line.length
  · simp [hlong]
  · rw [if_neg hlong, recognize?_eq_none_iff]
    simp [hlong]

instance (o : Options) (line : List UInt8) : Decidable (Unrecognized o line) :=
  decidable_of_iff (StreamState.eventOf? o line = none) eventOf?_eq_none_iff

/-! ### What is written -/

/-- As many bytes as there is room for. -/
def Sink.accepted {ε : Type} (sink : Sink ε) (bytes : List UInt8) : List UInt8 :=
  match sink.room with
  | none => bytes
  | some n => bytes.take n

theorem output_writeLines {ε : Type} (o : Options) (sink : Sink ε) (failure : Option ε) (lines : List (List UInt8))
    (done : List (List UInt8)) (room : Option Nat) (s : StreamState) :
    (writeLines o sink failure done room s lines).output =
      done.reverse.flatten ++ Sink.accepted ⟨room, sink.failure⟩ (s.outputs o lines).flatten := by
  induction lines generalizing done room s with
  | nil => cases room <;> simp [writeLines, Sink.accepted, StreamState.outputs]
  | cons line rest ih =>
    rw [StreamState.outputs, List.flatten_cons]
    cases room with
    | none => simp [writeLines, ih, Sink.accepted]
    | some n =>
      rw [writeLines]
      dsimp only
      split
      · next hroom =>
        rw [ih]
        simp [Sink.accepted, List.take_append, List.take_of_length_le hroom]
      · next hroom =>
        have hzero : n - (s.step o line).1.length = 0 := by omega
        simp [Sink.accepted, List.take_append, hzero]

/-- **Output.** What the lines of a stream give is written, as far as there is room. -/
theorem output_runStream {ε : Type} (o : Options) (s : StreamState) (source : Source ε) (sink : Sink ε) :
    (runStream o s source sink).output = sink.accepted (s.outputs o source.lines).flatten := by
  rw [runStream, output_writeLines]
  rfl

/-- What every state writes for a line is written for it in a run. -/
theorem forall₂_outputs {o : Options} {R : RawLine → List UInt8 → Prop} {raws : List RawLine}
    (h : ∀ raw s, R raw (StreamState.step o s (chomp raw.text)).1) (s : StreamState) :
    List.Forall₂ R raws (s.outputs o (raws.map (chomp ·.text))) := by
  induction raws generalizing s with
  | nil => exact .nil
  | cons raw raws ih => exact .cons (h raw s) (ih _)

/-- **Verbatim.** The output of a stream is what is written for its lines, as far as there is room. For a line that no
shape takes, or that is too long, this is the line without its own end and a line feed. Only an unfinished line with a
carriage return at its end is looked at and written without this return. -/
theorem unrecognized_written_verbatim {ε : Type} (o : Options) (s : StreamState) (source : Source ε) (sink : Sink ε) :
    AreLines (rawLines source.bytes) source.bytes ∧
      (runStream o s source sink).output = sink.accepted (s.outputs o source.lines).flatten ∧
      List.Forall₂
        (fun raw out =>
          (¬ raw.LoneReturn → Unrecognized o raw.body → out = raw.body ++ [lineFeed]) ∧
            (raw.LoneReturn → Unrecognized o raw.body.dropLast →
              out = raw.body.dropLast ++ [lineFeed] ∧ out ≠ raw.body ++ [lineFeed]))
        source.rawLines (s.outputs o source.lines) := by
  refine ⟨areLines_rawLines source.bytes, output_runStream o s source sink, ?_⟩
  rw [source.lines_eq]
  refine forall₂_outputs (fun raw s => ⟨fun hraw hline => ?_, fun hraw hline => ?_⟩) s
  · rw [RawLine.chomp_text_of_not_loneReturn hraw, StreamState.step_of_none (eventOf?_eq_none_iff.mpr hline)]
  · rw [hraw.chomp_text, StreamState.step_of_none (eventOf?_eq_none_iff.mpr hline)]
    exact ⟨rfl, fun heq => hraw.dropLast_ne (List.append_cancel_right heq)⟩

/-- An unfinished line loses the carriage return at its end, though no shape takes the line with it. -/
theorem runStream_drops_lone_return :
    let source : Source Unit := ⟨Text.encode "plain\r", none⟩
    source.rawLines = [⟨Text.encode "plain\r", false⟩] ∧ Unrecognized {} (Text.encode "plain\r") ∧
      (runStream {} {} source ⟨none, ()⟩).output = Text.encode "plain\n" ∧
      (runStream {} {} source ⟨none, ()⟩).output ≠ Text.encode "plain\r\n" := by
  intro source
  exact ⟨by decide +kernel, eventOf?_eq_none_iff.mp (by decide +kernel), by decide +kernel, by decide +kernel⟩

end LegibleLog
