import LegibleLog.Proofs.Cutoff

/-!
# Streams read in chunks

A stream as it is read: each read of the source gives some bytes, which are gathered in a buffer up to the next line
feed, and each line is processed before the next one is read.

* `separated bytes` — the pieces that line feeds separate, and `linesOf_eq_separated`: these are the lines;
* `Outcome.andThen` — one run after another; `writtenTo_append` says that the lines of two runs may be written in one;
* `StreamState.process` — one line, with a sink that may fail;
* `readLine` — the buffer with the next line, and `readLine_cases` for all that it can hold;
* `runChunks` — the whole loop, and `runChunks_eq_runStream`: what the chunks are does not matter;
* `runChunks_line_by_line` — so a stream is processed line by line, and in as many runs as one likes.
-/

namespace LegibleLog

variable {ε : Type}

/-! ### The lines between line feeds -/

/-- The pieces that line feeds separate, without an empty one at the end. -/
def separated (bytes : List UInt8) : List (List UInt8) :=
  let pieces := bytes.splitOn lineFeed
  if pieces.getLast? = some [] then pieces.dropLast else pieces

theorem linesOf_eq_separated (bytes : List UInt8) : linesOf bytes = (separated bytes).map chomp := by
  rw [separated, ← pieces_eq, List.getLast?_concat, List.dropLast_concat]
  simp only [linesOf, Option.some.injEq, List.isEmpty_iff]

theorem Source.lines_append {a : List UInt8} (ha : a = [] ∨ a.getLast? = some lineFeed) (b : List UInt8)
    (failure : Option ε) : lines ⟨a ++ b, failure⟩ = lines (⟨a, none⟩ : Source ε) ++ lines ⟨b, failure⟩ := by
  induction hn : a.length using Nat.strong_induction_on generalizing a with
  | _ n ih =>
    subst hn
    by_cases hmem : lineFeed ∈ a
    · obtain ⟨line, rest, rfl, hline⟩ := List.eq_append_cons_of_mem hmem
      have hrest : rest = [] ∨ rest.getLast? = some lineFeed := by
        rcases ha with ha | ha
        · simp at ha
        · cases rest with
          | nil => exact .inl rfl
          | cons c rest => exact .inr (by simpa using ha)
      have hlen : rest.length < (line ++ lineFeed :: rest).length := by
        rw [List.length_append, List.length_cons]
        omega
      rw [List.append_assoc, List.cons_append, lines_append_lineFeed hline, lines_append_lineFeed hline,
        ih _ hlen hrest rfl, List.cons_append]
    · rcases ha with rfl | ha
      · have hlines : lines (⟨[], none⟩ : Source ε) = [] := lines_of_notMem hmem
        rw [hlines]
        rfl
      · exact absurd (List.mem_of_getLast? ha) hmem

/-! ### One run after another -/

/-- A sink that has taken some bytes. -/
def Sink.less (sink : Sink ε) (taken : Nat) : Sink ε := { sink with room := sink.room.map (· - taken) }

/-- One run, and after it another, if the first has not failed. The second begins in the state and with the room that
the first has left. -/
def Outcome.andThen (first : Outcome ε) (sink : Sink ε) (second : StreamState → Sink ε → Outcome ε) : Outcome ε :=
  match first.failure with
  | some _ => first
  | none =>
    let last := second first.state (sink.less first.output.length)
    ⟨first.output ++ last.output, last.failure, last.state⟩

/-- Lines are written, and what comes after the last of them is `failure`. -/
def writtenTo (o : Options) (failure : Option ε) (lines : List (List UInt8)) (s : StreamState) (sink : Sink ε) :
    Outcome ε :=
  writeLines o sink failure [] sink.room s lines

variable {o : Options} {failure : Option ε}

theorem Sink.less_zero (sink : Sink ε) : sink.less 0 = sink := by
  obtain ⟨_ | n, broken⟩ := sink <;> rfl

theorem Sink.less_less (sink : Sink ε) (m n : Nat) : (sink.less m).less n = sink.less (m + n) := by
  obtain ⟨_ | room, broken⟩ := sink
  · rfl
  · simp only [less, Option.map_some, Nat.sub_sub]

theorem Outcome.andThen_assoc (first : Outcome ε) (sink : Sink ε) (second third : StreamState → Sink ε → Outcome ε) :
    (first.andThen sink second).andThen sink third =
      first.andThen sink fun s rest => (second s rest).andThen rest third := by
  obtain ⟨output, _ | e, s⟩ := first
  · simp only [andThen]
    -- the second run may have failed, and then there is no third
    cases hsecond : (second s (sink.less output.length)).failure with
    | none => simp only [List.length_append, List.append_assoc, Sink.less_less]
    | some e => simp only [hsecond]
  · rfl

/-- Of a sink, only the failure is asked for while lines are written. -/
theorem writeLines_congr {sink sink' : Sink ε} (h : sink.failure = sink'.failure) (lines : List (List UInt8))
    (done : List (List UInt8)) (room : Option Nat) (s : StreamState) :
    writeLines o sink failure done room s lines = writeLines o sink' failure done room s lines := by
  induction lines generalizing done room s with
  | nil => rfl
  | cons line rest ih =>
    cases room with
    | none => exact ih _ _ _
    | some n =>
      simp only [writeLines, ih, h]

theorem writeLines_done (sink : Sink ε) (lines : List (List UInt8)) (done : List (List UInt8)) (room : Option Nat)
    (s : StreamState) :
    writeLines o sink failure done room s lines =
      let run := writeLines o sink failure [] room s lines
      ⟨done.reverse.flatten ++ run.output, run.failure, run.state⟩ := by
  induction lines generalizing done room s with
  | nil => simp [writeLines]
  | cons line rest ih =>
    cases room with
    | none =>
      rw [writeLines, writeLines]
      dsimp only
      rw [ih ((s.step o line).1 :: done), ih [(s.step o line).1]]
      simp
    | some n =>
      rw [writeLines, writeLines]
      dsimp only
      split
      · rw [ih ((s.step o line).1 :: done), ih [(s.step o line).1]]
        simp
      · simp

/-- What is written for the first line, and then for those after it. -/
theorem writtenTo_cons (line : List UInt8) (rest : List (List UInt8)) (s : StreamState) (sink : Sink ε) :
    writtenTo o failure (line :: rest) s sink =
      (writtenTo o none [line] s sink).andThen sink (writtenTo o failure rest) := by
  have hless : (sink.less (s.step o line).1.length).failure = sink.failure := rfl
  simp only [writtenTo, writeLines]
  cases hroom : sink.room with
  | none =>
    dsimp only
    rw [writeLines_done, writeLines_congr hless.symm]
    simp [Outcome.andThen, writtenTo, Sink.less, hroom]
  | some n =>
    dsimp only
    split
    · rw [writeLines_done, writeLines_congr hless.symm]
      simp [Outcome.andThen, writtenTo, Sink.less, hroom]
    · rfl

/-- **Two runs.** Lines are written like some of them first, and then the others. -/
theorem writtenTo_append (first second : List (List UInt8)) (s : StreamState) (sink : Sink ε) :
    writtenTo o failure (first ++ second) s sink =
      (writtenTo o none first s sink).andThen sink (writtenTo o failure second) := by
  induction first generalizing s sink with
  | nil => simp [writtenTo, writeLines, Outcome.andThen, Sink.less_zero]
  | cons line rest ih =>
    rw [List.cons_append, writtenTo_cons, writtenTo_cons line rest, Outcome.andThen_assoc]
    simp only [funext fun s => funext (ih s)]

/-- Where there is always room, all is written. -/
theorem writtenTo_of_room_none (lines : List (List UInt8)) (s : StreamState) (broken : ε) :
    writtenTo o failure lines s ⟨none, broken⟩ = ⟨(s.outputs o lines).flatten, failure, s.after o lines⟩ := by
  induction lines generalizing s with
  | nil => rfl
  | cons line rest ih =>
    rw [writtenTo_cons]
    have hline : writtenTo o none [line] s ⟨none, broken⟩ = ⟨(s.step o line).1, none, (s.step o line).2⟩ := by
      simp [writtenTo, writeLines]
    simp [hline, Outcome.andThen, Sink.less, ih, StreamState.outputs, StreamState.after]

/-- One line is written. -/
def StreamState.process (o : Options) (s : StreamState) (line : List UInt8) (sink : Sink ε) : Outcome ε :=
  writtenTo o none [line] s sink

/-- Whether the sink fails does not matter to the state. -/
theorem StreamState.process_eq (o : Options) (s : StreamState) (line : List UInt8) (sink : Sink ε) :
    s.process o line sink =
      ⟨sink.accepted (s.step o line).1, sink.ending none (s.step o line).1, (s.step o line).2⟩ := by
  rw [process, writtenTo, writeLines, Sink.accepted, Sink.ending]
  cases hroom : sink.room with
  | none => simp [writeLines]
  | some n =>
    dsimp only
    split
    · next hfits => simp [writeLines, List.take_of_length_le hfits]
    · simp

/-! ### Reading a line -/

/-- Reads up to the next line feed: the bytes in `buffer`, those read with the line feed, and the chunks that are left.
A chunk without a line feed is taken whole, and the next one is asked for; when there is none, the buffer is what is
left, or the source fails. -/
def readLine (failure : Option ε) (buffer : List UInt8) :
    List (List UInt8) → Except ε (List UInt8 × List (List UInt8))
  | [] =>
    match failure with
    | some e => .error e
    | none => .ok (buffer, [])
  | chunk :: chunks =>
    match chunk.dropWhile (· != lineFeed) with
    | [] => readLine failure (buffer ++ chunk) chunks
    | _ :: more => .ok (buffer ++ chunk.takeWhile (· != lineFeed) ++ [lineFeed], more :: chunks)

/-- **What is read.** A line with its line feed, the chunks giving what comes after it, or, when there is no line feed
in all of them, what they give, and then the failure of the source. -/
theorem readLine_cases (failure : Option ε) {buffer : List UInt8} (hbuffer : lineFeed ∉ buffer)
    (chunks : List (List UInt8)) :
    (∃ line rest, lineFeed ∉ line ∧ buffer ++ chunks.flatten = line ++ lineFeed :: rest.flatten ∧
      readLine failure buffer chunks = .ok (line ++ [lineFeed], rest)) ∨
    lineFeed ∉ buffer ++ chunks.flatten ∧
      readLine failure buffer chunks = failure.elim (.ok (buffer ++ chunks.flatten, [])) .error := by
  induction chunks generalizing buffer with
  | nil =>
    rw [List.flatten_nil, List.append_nil]
    cases failure with
    | none => exact .inr ⟨hbuffer, rfl⟩
    | some e => exact .inr ⟨hbuffer, rfl⟩
  | cons chunk chunks ih =>
    have htaken : lineFeed ∉ chunk.takeWhile (· != lineFeed) := fun h => by
      simpa using List.mem_takeWhile_imp h
    have hchunk := (List.takeWhile_append_dropWhile (p := (· != lineFeed)) (l := chunk)).symm
    rw [readLine, List.flatten_cons, ← List.append_assoc]
    cases hrest : chunk.dropWhile (· != lineFeed) with
    | nil =>
      rw [hrest, List.append_nil] at hchunk
      rw [← hchunk] at htaken
      exact ih (by simp [hbuffer, htaken])
    | cons b more =>
      have hb : b = lineFeed := by
        have hnot := forall_head?_dropWhile (· != lineFeed) chunk b (by rw [hrest]; rfl)
        simpa using hnot
      subst hb
      rw [hrest] at hchunk
      refine .inl ⟨buffer ++ chunk.takeWhile (· != lineFeed), more :: chunks, by simp [hbuffer, htaken], ?_, rfl⟩
      conv_lhs => rw [hchunk]
      simp

/-- Each line that is read leaves fewer bytes, so there is an end. -/
theorem length_flatten_lt_of_readLine {chunks rest : List (List UInt8)} {b : UInt8} {read : List UInt8}
    (h : readLine failure [] chunks = .ok (b :: read, rest)) : rest.flatten.length < chunks.flatten.length := by
  rcases readLine_cases failure List.not_mem_nil chunks with ⟨line, after, -, hchunks, hread⟩ | ⟨-, hread⟩
  · obtain ⟨-, rfl⟩ := Prod.mk.inj (Except.ok.inj (h.symm.trans hread))
    rw [List.nil_append] at hchunks
    rw [hchunks, List.length_append, List.length_cons]
    omega
  · cases failure with
    | none =>
      obtain ⟨hall, rfl⟩ := Prod.mk.inj (Except.ok.inj (h.symm.trans hread))
      rw [List.nil_append] at hall
      simp [← hall]
    | some e => nomatch h.symm.trans hread

/-! ### The loop -/

/-- What is processed of a line as it is read: neither the line feed at its end nor a carriage return before it. -/
def trimmed (read : List UInt8) : List UInt8 :=
  chomp (if read.getLast? = some lineFeed then read.dropLast else read)

/-- Renders a stream as it is read: a line at a time, until nothing is read, or the source or the sink fails. -/
def runChunks (o : Options) (failure : Option ε) (chunks : List (List UInt8)) (s : StreamState) (sink : Sink ε) :
    Outcome ε :=
  match _h : readLine failure [] chunks with
  | .error e => ⟨[], some e, s⟩
  | .ok ([], _) => ⟨[], none, s⟩
  | .ok (b :: read, rest) =>
    (writtenTo o none [trimmed (b :: read)] s sink).andThen sink (runChunks o failure rest)
termination_by chunks.flatten.length
decreasing_by exact length_flatten_lt_of_readLine _h

theorem trimmed_append_lineFeed (line : List UInt8) : trimmed (line ++ [lineFeed]) = chomp line := by
  rw [trimmed, List.getLast?_concat, if_pos rfl, List.dropLast_concat]

theorem trimmed_of_notMem {line : List UInt8} (h : lineFeed ∉ line) : trimmed line = chomp line := by
  rw [trimmed, if_neg fun hlast => h (List.mem_of_getLast? hlast)]

section Loop

variable {chunks : List (List UInt8)} (s : StreamState) (sink : Sink ε)

theorem runChunks_of_line {read : List UInt8} {rest : List (List UInt8)} (hread : read ≠ [])
    (h : readLine failure [] chunks = .ok (read, rest)) :
    runChunks o failure chunks s sink =
      (writtenTo o none [trimmed read] s sink).andThen sink (runChunks o failure rest) := by
  obtain ⟨b, read, rfl⟩ := List.exists_cons_of_ne_nil hread
  rw [runChunks]
  split
  · next e h' => nomatch h.symm.trans h'
  · next rest' h' => nomatch h.symm.trans h'
  · next b' read' rest' h' =>
    obtain ⟨hread', rfl⟩ := Prod.mk.inj (Except.ok.inj (h.symm.trans h'))
    rw [hread']

theorem runChunks_of_end {rest : List (List UInt8)} (h : readLine failure [] chunks = .ok ([], rest)) :
    runChunks o failure chunks s sink = ⟨[], none, s⟩ := by
  rw [runChunks]
  split
  · next e h' => nomatch h.symm.trans h'
  · rfl
  · next b read rest' h' => nomatch h.symm.trans h'

theorem runChunks_of_error {e : ε} (h : readLine failure [] chunks = .error e) :
    runChunks o failure chunks s sink = ⟨[], some e, s⟩ := by
  rw [runChunks]
  split
  · next e' h' =>
    obtain rfl := Except.error.inj (h.symm.trans h')
    rfl
  · next rest h' => nomatch h.symm.trans h'
  · next b read rest h' => nomatch h.symm.trans h'

end Loop

/-- **The chunks do not matter.** A stream that is read in chunks is rendered as one that is given whole. -/
theorem runChunks_eq_runStream (o : Options) (failure : Option ε) (chunks : List (List UInt8)) (s : StreamState)
    (sink : Sink ε) : runChunks o failure chunks s sink = runStream o s ⟨chunks.flatten, failure⟩ sink := by
  change _ = writtenTo o failure (Source.lines ⟨chunks.flatten, failure⟩) s sink
  induction hn : chunks.flatten.length using Nat.strong_induction_on generalizing chunks s sink with
  | _ n ih =>
    subst hn
    rcases readLine_cases failure List.not_mem_nil chunks with ⟨line, rest, hline, hchunks, hread⟩ | ⟨hall, hread⟩
    · -- a line and its line feed, and then what the chunks give that are left
      rw [List.nil_append] at hchunks
      have hless : rest.flatten.length < chunks.flatten.length := by
        rw [hchunks, List.length_append, List.length_cons]
        omega
      rw [runChunks_of_line s sink (by simp) hread, trimmed_append_lineFeed, hchunks,
        Source.lines_append_lineFeed hline, writtenTo_cons (chomp line) (Source.lines ⟨rest.flatten, failure⟩)]
      exact congrArg _ (funext fun s => funext fun sink => ih _ hless rest s sink rfl)
    · rw [List.nil_append] at hall hread
      cases failure with
      | some e =>
        rw [runChunks_of_error s sink hread, Source.lines_of_notMem hall]
        rfl
      | none =>
        by_cases hnil : chunks.flatten = []
        · rw [hnil] at hread ⊢
          exact runChunks_of_end s sink hread
        · -- the last line has no line feed, and nothing is left after it
          have hlines : Source.lines (⟨chunks.flatten, none⟩ : Source ε) = [chomp chunks.flatten] := by
            rw [Source.lines_of_notMem hall, if_neg (by simpa using hnil)]
          have hend : runChunks o (none : Option ε) [] = writtenTo o none [] :=
            funext fun s => funext fun sink => runChunks_of_end s sink rfl
          rw [runChunks_of_line s sink hnil hread, trimmed_of_notMem hall, hlines, hend]
          exact (writtenTo_cons (chomp chunks.flatten) [] s sink).symm

/-- **A stream is processed line by line.** Whatever the chunks are in which it is read, a stream is the fold of `step`
over what line feeds separate, each without one carriage return at its end; and a source and a sink that fail do not
make the chunks matter. So a stream may be processed in two runs, the first one up to the end of a line. -/
theorem runChunks_line_by_line (o : Options) (s : StreamState) :
    (∀ (chunks : List (List UInt8)) (broken : ε),
      let lines := (separated chunks.flatten).map chomp
      runChunks o none chunks s ⟨none, broken⟩ = ⟨(s.outputs o lines).flatten, none, s.after o lines⟩) ∧
    (∀ (failure : Option ε) (chunks : List (List UInt8)) (sink : Sink ε),
      runChunks o failure chunks s sink = runStream o s ⟨chunks.flatten, failure⟩ sink) ∧
    ∀ (failure : Option ε) (a b chunks : List (List UInt8)) (sink : Sink ε),
      a.flatten = [] ∨ a.flatten.getLast? = some lineFeed → chunks.flatten = a.flatten ++ b.flatten →
        runChunks o failure chunks s sink = (runChunks o none a s sink).andThen sink (runChunks o failure b) := by
  refine ⟨fun chunks broken => ?_, fun failure chunks sink => runChunks_eq_runStream o failure chunks s sink,
    fun failure a b chunks sink ha hchunks => ?_⟩
  · rw [← linesOf_eq_separated, runChunks_eq_runStream]
    exact writtenTo_of_room_none (linesOf chunks.flatten) s broken
  · have hrest : runChunks o failure b = writtenTo o failure (Source.lines ⟨b.flatten, failure⟩) :=
      funext fun s => funext fun sink => runChunks_eq_runStream o failure b s sink
    rw [runChunks_eq_runStream, runChunks_eq_runStream, hchunks, hrest]
    exact (congrArg (writtenTo o failure · s sink) (Source.lines_append ha b.flatten failure)).trans
      (writtenTo_append _ _ s sink)

/-- Two lines in a run, and an unfinished one in another; the first line has its line feed in a chunk of its own. -/
theorem runChunks_line_by_line_in_two_runs :
    let a : List (List UInt8) := ["msg=m k=v\r".toUTF8.toList, [lineFeed], "plain\n".toUTF8.toList]
    let b : List (List UInt8) := ["la".toUTF8.toList, "st".toUTF8.toList]
    let chunks : List (List UInt8) := ["msg=m k=v\r\npl".toUTF8.toList, "ain\nlast".toUTF8.toList]
    let sink : Sink Unit := ⟨none, ()⟩
    (a.flatten = [] ∨ a.flatten.getLast? = some lineFeed) ∧ chunks.flatten = a.flatten ++ b.flatten ∧
      runChunks {} none chunks {} sink = (runChunks {} none a {} sink).andThen sink (runChunks {} none b) := by
  intro a b chunks sink
  have ha : a.flatten = [] ∨ a.flatten.getLast? = some lineFeed := .inr (by decide +kernel)
  have hchunks : chunks.flatten = a.flatten ++ b.flatten := by decide +kernel
  exact ⟨ha, hchunks, (runChunks_line_by_line {} {}).2.2 none a b chunks sink ha hchunks⟩

end LegibleLog
