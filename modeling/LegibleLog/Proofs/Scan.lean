import LegibleLog.Proofs.Cutoff
import Mathlib.Logic.Relation

/-!
# Streams byte by byte

A stream as it comes and goes: the source gives one byte after the other, and the sink takes any number of bytes at a
time, until it has no room.

* `Scan` — a stream at work; `Scan.Step` is what it may do next, and `Scan.Ends` tells when and how it ends;
* `Scan.Sound` — the invariant: what is written, what is given to the sink, and what the bytes that are left give, is
  what the lines of the source give; `Scan.sound_step` and `Scan.sound_of_run` keep it;
* `Scan.written_of_runs` — what is written at the end of a scan, whatever the sink took in which portions;
* `Scan.wellFounded_step`, `Scan.exists_end` — every scan ends;
* `runStream_cut` — where the failures of a source and of a sink cut a stream.
-/

namespace LegibleLog

variable {ε : Type}

/-- A stream at work. -/
structure Scan where
  state : StreamState
  /-- What the source has still to give. -/
  unread : List UInt8
  /-- What is read of a line that is not finished. -/
  line : List UInt8
  /-- What is given to the sink and not taken yet. -/
  unwritten : List UInt8
  /-- What the sink has taken. -/
  written : List UInt8

namespace Scan

/-- A new scan of a source. -/
def start (s : StreamState) (source : Source ε) : Scan := ⟨s, source.bytes, [], [], []⟩

/-- What a scan does next. All that is written for a line is taken before the source is asked again; the sink takes as
many bytes as it likes while there is room. -/
inductive Step (o : Options) (source : Source ε) (sink : Sink ε) : Scan → Scan → Prop where
  /-- A byte of a line. -/
  | read {s : StreamState} {b : UInt8} {unread line written : List UInt8} (hb : b ≠ lineFeed) :
    Step o source sink ⟨s, b :: unread, line, [], written⟩ ⟨s, unread, line ++ [b], [], written⟩
  /-- The end of a line. -/
  | finish {s : StreamState} {unread line written : List UInt8} :
    Step o source sink ⟨s, lineFeed :: unread, line, [], written⟩
      ⟨(s.step o (chomp line)).2, unread, [], (s.step o (chomp line)).1, written⟩
  /-- The end of a source that has not failed, in the middle of a line. -/
  | last {s : StreamState} {line written : List UInt8} (hend : source.failure = none) (hline : line ≠ []) :
    Step o source sink ⟨s, [], line, [], written⟩
      ⟨(s.step o (chomp line)).2, [], [], (s.step o (chomp line)).1, written⟩
  /-- Some bytes are written. -/
  | write {s : StreamState} {unread line bytes rest written : List UInt8} (hbytes : bytes ≠ [])
    (hroom : ∀ n ∈ sink.room, written.length + bytes.length ≤ n) :
    Step o source sink ⟨s, unread, line, bytes ++ rest, written⟩ ⟨s, unread, line, rest, written ++ bytes⟩

/-- How a scan ends. -/
inductive Ends (source : Source ε) (sink : Sink ε) : Scan → Option ε → Prop where
  /-- There are bytes to write, and no room for any. -/
  | full {s : StreamState} {unread line unwritten written : List UInt8} (hbytes : unwritten ≠ [])
    (hroom : sink.room = some written.length) :
    Ends source sink ⟨s, unread, line, unwritten, written⟩ (some sink.failure)
  /-- The source fails. -/
  | failed {s : StreamState} {line written : List UInt8} {e : ε} (hend : source.failure = some e) :
    Ends source sink ⟨s, [], line, [], written⟩ (some e)
  /-- All is read and written. -/
  | done {s : StreamState} {written : List UInt8} (hend : source.failure = none) :
    Ends source sink ⟨s, [], [], [], written⟩ none

/-- From its start to its end. -/
def Runs (o : Options) (s : StreamState) (source : Source ε) (sink : Sink ε) (c : Scan) (e : Option ε) : Prop :=
  Relation.ReflTransGen (Step o source sink) (start s source) c ∧ Ends source sink c e

variable {o : Options} {s : StreamState} {source : Source ε} {sink : Sink ε} {c c' : Scan} {e : Option ε}

/-! ### What a scan writes -/

/-- The bytes that come of the source from here on. -/
def rest (o : Options) (source : Source ε) (c : Scan) : List UInt8 :=
  (c.state.outputs o (Source.lines ⟨c.line ++ c.unread, source.failure⟩)).flatten

/-- Nothing comes of a source that is at its end, unless it has not failed and a line is not finished. -/
theorem rest_eq_nil (hunbroken : lineFeed ∉ c.line) (hread : c.unread = [])
    (hline : (source.failure.isSome || c.line.isEmpty) = true) : c.rest o source = [] := by
  rw [rest, hread, List.append_nil, Source.lines_of_notMem hunbroken, if_pos hline]
  rfl

/-- **The invariant of scans.** What is written, what is given to the sink, and what comes from here on, is all that the
source gives; and all that is written had room. -/
structure Sound (o : Options) (source : Source ε) (sink : Sink ε) (whole : List UInt8) (c : Scan) : Prop where
  unbroken : lineFeed ∉ c.line
  whole : c.written ++ (c.unwritten ++ c.rest o source) = whole
  room : ∀ n ∈ sink.room, c.written.length ≤ n

theorem sound_start (o : Options) (s : StreamState) (source : Source ε) (sink : Sink ε) :
    Sound o source sink (s.outputs o source.lines).flatten (start s source) where
  unbroken := List.not_mem_nil
  whole := rfl
  room := fun _ _ => Nat.zero_le _

/-- **One step.** -/
theorem sound_step {whole : List UInt8} (h : Step o source sink c c') (hc : Sound o source sink whole c) :
    Sound o source sink whole c' := by
  obtain ⟨hunbroken, hwhole, hroom⟩ := hc
  cases h with
  | read hb =>
    refine ⟨?_, ?_, hroom⟩
    · rw [List.mem_append, List.mem_singleton, not_or]
      exact ⟨hunbroken, Ne.symm hb⟩
    · rw [← hwhole]
      simp [rest]
  | finish =>
    refine ⟨List.not_mem_nil, ?_, hroom⟩
    rw [← hwhole]
    simp [rest, Source.lines_append_lineFeed hunbroken, StreamState.outputs]
  | last hend hline =>
    refine ⟨List.not_mem_nil, ?_, hroom⟩
    have hnil : lineFeed ∉ ([] : List UInt8) := List.not_mem_nil
    rw [← hwhole]
    simp [rest, hend, Source.lines_of_notMem hunbroken, Source.lines_of_notMem hnil, hline, StreamState.outputs]
  | write hbytes hfits =>
    refine ⟨hunbroken, ?_, ?_⟩
    · rw [← hwhole]
      simp [rest]
    · intro n hn
      rw [List.length_append]
      exact hfits n hn

/-- **A whole run.** -/
theorem sound_of_run (h : Relation.ReflTransGen (Step o source sink) (start s source) c) :
    Sound o source sink (s.outputs o source.lines).flatten c := by
  induction h with
  | refl => exact sound_start o s source sink
  | tail _ hstep ih => exact sound_step hstep ih

/-- **Where a scan ends.** As much is written as there is room for, and the scan ends as it does when this is written at
once. -/
theorem written_of_runs (h : Runs o s source sink c e) :
    c.written = sink.accepted (s.outputs o source.lines).flatten ∧
      e = sink.ending source.failure (s.outputs o source.lines).flatten := by
  obtain ⟨hrun, hend⟩ := h
  obtain ⟨hunbroken, hwhole, hroom⟩ := sound_of_run hrun
  generalize (s.outputs o source.lines).flatten = whole at hwhole
  cases hend with
  | @full s unread line unwritten written hbytes hfull =>
    dsimp only at hwhole
    have hpos := List.length_pos_iff.mpr hbytes
    have hmore : ¬ whole.length ≤ written.length := by
      rw [← hwhole, List.length_append, List.length_append]
      omega
    refine ⟨?_, ?_⟩
    · rw [Sink.accepted, hfull, ← hwhole]
      exact List.take_left.symm
    · rw [Sink.ending, hfull]
      exact (if_neg hmore).symm
  | @failed s line written e hfailed =>
    have hrest : rest o source ⟨s, [], line, [], written⟩ = [] := by
      refine rest_eq_nil hunbroken rfl ?_
      rw [hfailed]
      rfl
    rw [hrest, List.nil_append, List.append_nil] at hwhole
    subst hwhole
    rw [sink.accepted_of_room hroom, sink.ending_of_room _ hroom]
    exact ⟨rfl, hfailed.symm⟩
  | @done s written hdone =>
    have hrest : rest o source ⟨s, [], [], [], written⟩ = [] := by
      refine rest_eq_nil hunbroken rfl ?_
      rw [List.isEmpty_nil, Bool.or_true]
    rw [hrest, List.nil_append, List.append_nil] at hwhole
    subst hwhole
    rw [sink.accepted_of_room hroom, sink.ending_of_room _ hroom]
    exact ⟨rfl, hdone.symm⟩

/-! ### Every scan ends -/

/-- A scan goes on or ends. -/
theorem exists_step_or_ends (hroom : ∀ n ∈ sink.room, c.written.length ≤ n) :
    (∃ c', Step o source sink c c') ∨ ∃ e, Ends source sink c e := by
  obtain ⟨s, unread, line, unwritten, written⟩ := c
  cases unwritten with
  | cons b more =>
    by_cases hfull : sink.room = some written.length
    · exact .inr ⟨_, .full (List.cons_ne_nil b more) hfull⟩
    · have hbyte : [b] ≠ [] := List.cons_ne_nil b []
      have hfits : ∀ n ∈ sink.room, written.length + [b].length ≤ n := by
        intro n hn
        have hle : written.length ≤ n := hroom n hn
        have hne : n ≠ written.length := by
          rintro rfl
          exact hfull hn
        simp only [List.length_singleton]
        omega
      exact .inl ⟨_, .write hbyte hfits⟩
  | nil =>
    cases unread with
    | cons b more =>
      by_cases hb : b = lineFeed
      · subst hb
        exact .inl ⟨_, .finish⟩
      · exact .inl ⟨_, .read hb⟩
    | nil =>
      cases hend : source.failure with
      | some e => exact .inr ⟨_, .failed hend⟩
      | none =>
        by_cases hline : line = []
        · subst hline
          exact .inr ⟨_, .done hend⟩
        · exact .inl ⟨_, .last hend hline⟩

/-- What each step makes less: what is to be read or finished, or, where this stays, what is to be written. -/
def size (c : Scan) : Nat × Nat := (2 * c.unread.length + (if c.line = [] then 0 else 1), c.unwritten.length)

theorem size_lt_of_step (h : Step o source sink c c') : Prod.Lex (· < ·) (· < ·) c'.size c.size := by
  unfold size
  cases h with
  | read hb =>
    refine .left _ _ ?_
    simp only [List.length_cons]
    split <;> split <;> omega
  | finish =>
    refine .left _ _ ?_
    simp only [List.length_cons, if_true]
    split <;> omega
  | last hend hline =>
    refine .left _ _ ?_
    simp [hline]
  | write hbytes hroom =>
    have hpos := List.length_pos_iff.mpr hbytes
    refine .right _ ?_
    simp only [List.length_append]
    omega

/-- No scan goes on for ever. -/
theorem wellFounded_step (o : Options) (source : Source ε) (sink : Sink ε) :
    WellFounded fun c' c => Step o source sink c c' :=
  Subrelation.wf size_lt_of_step (InvImage.wf size (Prod.lex Nat.lt_wfRel Nat.lt_wfRel).wf)

/-- **Every scan ends.** -/
theorem exists_end (o : Options) (s : StreamState) (source : Source ε) (sink : Sink ε) :
    ∃ c e, Runs o s source sink c e := by
  have hends : ∀ c, Relation.ReflTransGen (Step o source sink) (start s source) c →
      ∃ c e, Runs o s source sink c e := by
    intro c
    induction c using (wellFounded_step o source sink).induction with
    | _ c ih =>
      intro hrun
      rcases exists_step_or_ends (sound_of_run hrun).room with ⟨c', hstep⟩ | ⟨e, he⟩
      · exact ih c' hstep (hrun.tail hstep)
      · exact ⟨c, e, hrun, he⟩
  exact hends _ .refl

/-- However the bytes come and go, a scan writes what a stream writes, and ends as it does. -/
theorem eq_runStream (h : Runs o s source sink c e) :
    c.written = (runStream o s source sink).output ∧ e = (runStream o s source sink).failure := by
  rw [output_runStream, failure_runStream]
  exact written_of_runs h

end Scan

/-- **Cut.** Let `whole` be what is written for the lines that the source gives for good, where there is room for all.
With less room, as much of it is written as fits, and the stream ends in the failure of the sink; with enough, all of it
is written and no more, and the stream ends as its source does. Byte by byte it is the same: a scan comes to an end, and
at any end it has written just this and ends so. -/
theorem runStream_cut (o : Options) (s : StreamState) (source : Source ε) (room : Nat) (failure : ε) :
    let whole := (runStream o s ⟨source.settled, none⟩ ⟨none, failure⟩).output
    let sink : Sink ε := ⟨some room, failure⟩
    let outcome := runStream o s source sink
    (room < whole.length → outcome.failure = some failure ∧ outcome.output = whole.take room) ∧
      (whole.length ≤ room → outcome.failure = source.failure ∧ outcome.output = whole) ∧
      (∃ c e, Scan.Runs o s source sink c e) ∧
      ∀ c e, Scan.Runs o s source sink c e → c.written = outcome.output ∧ e = outcome.failure := by
  intro whole sink outcome
  have hwhole : whole = (s.outputs o source.lines).flatten := output_settled o s source failure
  rw [hwhole]
  refine ⟨?_, ?_, ?_, ?_⟩
  · intro hlt
    exact runStream_of_lt hlt
  · intro hle
    exact runStream_of_le hle
  · exact Scan.exists_end o s source sink
  · intro c e hruns
    exact Scan.eq_runStream hruns

/-- A source that fails in its second line, with room for the first but not for its line feed, and with room for
both. -/
theorem runStream_cut_at_lineFeed :
    let source : Source String := ⟨Text.encode "first\nsecond", some "read"⟩
    (runStream {} {} ⟨source.settled, none⟩ ⟨none, "write"⟩).output = Text.encode "first\n" ∧
      ((runStream {} {} source ⟨some 5, "write"⟩).failure = some "write" ∧
        (runStream {} {} source ⟨some 5, "write"⟩).output = Text.encode "first") ∧
      ((runStream {} {} source ⟨some 6, "write"⟩).failure = some "read" ∧
        (runStream {} {} source ⟨some 6, "write"⟩).output = Text.encode "first\n") := by
  intro source
  have hwhole : (runStream {} {} ⟨source.settled, none⟩ ⟨none, "write"⟩).output = Text.encode "first\n" := by
    decide +kernel
  have hshort := (runStream_cut {} {} source 5 "write").1
  have hlong := (runStream_cut {} {} source 6 "write").2.1
  rw [hwhole] at hshort hlong
  have htake : (Text.encode "first\n").take 5 = Text.encode "first" := by decide
  refine ⟨hwhole, ?_, hlong (by decide)⟩
  rw [← htake]
  exact hshort (by decide)

end LegibleLog
