import LegibleLog.Render.Line
import LegibleLog.Shape
import LegibleLog.Wrapper.Cee

/-!
# Streams of lines

* `StreamState.step o s line` — what is written for one line, and the state after it;
* `pieces bytes` — the lines of a stream, and what follows the last of them;
* `runStream o s source sink` — a whole stream, up to a failure of its source or sink.
-/

namespace LegibleLog

/-! ### One line -/

/-- How many lines had each shape, without an upper limit; see `Stats`. -/
structure ShapeCounts where
  json : Nat := 0
  logfmt : Nat := 0
  containedJson : Nat := 0
  containedLogfmt : Nat := 0
  console : Nat := 0
deriving Repr, DecidableEq

namespace ShapeCounts

/-- How many lines had a shape. -/
def get (c : ShapeCounts) : Shape → Nat
  | .bare .json => c.json
  | .bare .logfmt => c.logfmt
  | .contained .json => c.containedJson
  | .contained .logfmt => c.containedLogfmt
  | .console => c.console

/-- One more line of a shape. -/
def count (c : ShapeCounts) : Shape → ShapeCounts
  | .bare .json => { c with json := c.json + 1 }
  | .bare .logfmt => { c with logfmt := c.logfmt + 1 }
  | .contained .json => { c with containedJson := c.containedJson + 1 }
  | .contained .logfmt => { c with containedLogfmt := c.containedLogfmt + 1 }
  | .console => { c with console := c.console + 1 }

@[simp]
theorem get_empty (shape : Shape) : ({} : ShapeCounts).get shape = 0 := by
  rcases shape with ⟨_ | _⟩ | ⟨_ | _⟩ | _ <;> rfl

@[simp]
theorem get_count (c : ShapeCounts) (shape other : Shape) :
    (c.count shape).get other = c.get other + if shape = other then 1 else 0 := by
  rcases shape with ⟨_ | _⟩ | ⟨_ | _⟩ | _ <;> rcases other with ⟨_ | _⟩ | ⟨_ | _⟩ | _ <;> rfl

end ShapeCounts

/-- Counts of the lines of a stream. They have no upper limit, and agree with counters of 64 bits as long as fewer than
2 ^ 64 lines have been counted. -/
structure Stats where
  lines : Nat := 0
  /-- Lines that are written as they are. -/
  passed : Nat := 0
  /-- Lines that are too long to be looked at. -/
  oversized : Nat := 0
  recognized : ShapeCounts := {}
deriving Repr, DecidableEq

/-- For each form, the fields of the event before. -/
structure Memory where
  json : Fields := Fields.empty
  logfmt : Fields := Fields.empty
deriving DecidableEq

namespace Memory

/-- The fields that are held for a form. -/
def get (m : Memory) : Format → Fields
  | .json => m.json
  | .logfmt => m.logfmt

/-- The memory with other fields for a form. -/
def set (m : Memory) (fields : Fields) : Format → Memory
  | .json => { m with json := fields }
  | .logfmt => { m with logfmt := fields }

@[simp]
theorem get_empty (f : Format) : ({} : Memory).get f = Fields.empty := by cases f <;> rfl

@[simp]
theorem get_set (m : Memory) (fields : Fields) (f g : Format) :
    (m.set fields f).get g = if f = g then fields else m.get g := by
  cases f <;> cases g <;> rfl

end Memory

/-- What a stream remembers: the form of the line before, if that was an event, fields for each form, and counts. -/
structure StreamState where
  prior : Option Format := none
  memory : Memory := {}
  stats : Stats := {}
deriving DecidableEq

/-- Longer lines are not looked at. -/
def maxLineLength : Nat := 1048576

/-- The line feed. -/
def lineFeed : UInt8 := '\n'.toUInt8

/-- The carriage return. -/
def carriageReturn : UInt8 := '\r'.toUInt8

namespace StreamState

/-- The state without a line before, and without fields of any form. -/
def reset (s : StreamState) : StreamState := { s with prior := none, memory := {} }

/-- The state in which an event of a form is rendered: a change of form resets it. -/
def enter (s : StreamState) (f : Format) : StreamState := if s.prior = some f then s else s.reset

/-- A line that is written as it is. -/
def pass (s : StreamState) (oversized : Bool) : StreamState :=
  { s.reset with
    stats := { s.stats with
      lines := s.stats.lines + 1
      passed := s.stats.passed + 1
      oversized := s.stats.oversized + if oversized then 1 else 0 } }

/-- A line that is an event. -/
def see (s : StreamState) (shape : Shape) (e : Event) : StreamState :=
  { prior := some shape.format
    memory := s.memory.set e.fields shape.format
    stats := { s.stats with
      lines := s.stats.lines + 1
      recognized := s.stats.recognized.count shape } }

section Updates

variable (s : StreamState) (f : Format) (oversized : Bool) (shape : Shape) (e : Event)

@[simp]
theorem prior_reset : s.reset.prior = none := rfl

@[simp]
theorem memory_reset : s.reset.memory = {} := rfl

@[simp]
theorem stats_reset : s.reset.stats = s.stats := rfl

theorem enter_of_prior_eq (h : s.prior = some f) : s.enter f = s := if_pos h

theorem enter_of_prior_ne (h : s.prior ≠ some f) : s.enter f = s.reset := if_neg h

@[simp]
theorem stats_enter : (s.enter f).stats = s.stats := by
  by_cases h : s.prior = some f
  · rw [enter_of_prior_eq s f h]
  · rw [enter_of_prior_ne s f h, stats_reset]

@[simp]
theorem prior_pass : (s.pass oversized).prior = none := rfl

@[simp]
theorem memory_pass : (s.pass oversized).memory = {} := rfl

@[simp]
theorem lines_pass : (s.pass oversized).stats.lines = s.stats.lines + 1 := rfl

@[simp]
theorem passed_pass : (s.pass oversized).stats.passed = s.stats.passed + 1 := rfl

@[simp]
theorem oversized_pass :
    (s.pass oversized).stats.oversized = s.stats.oversized + if oversized then 1 else 0 := rfl

@[simp]
theorem recognized_pass : (s.pass oversized).stats.recognized = s.stats.recognized := rfl

@[simp]
theorem prior_see : (s.see shape e).prior = some shape.format := rfl

@[simp]
theorem memory_see : (s.see shape e).memory = s.memory.set e.fields shape.format := rfl

@[simp]
theorem lines_see : (s.see shape e).stats.lines = s.stats.lines + 1 := rfl

@[simp]
theorem passed_see : (s.see shape e).stats.passed = s.stats.passed := rfl

@[simp]
theorem oversized_see : (s.see shape e).stats.oversized = s.stats.oversized := rfl

@[simp]
theorem recognized_see : (s.see shape e).stats.recognized = s.stats.recognized.count shape := rfl

end Updates

/-- The event of a line, if it is one. -/
def eventOf? (o : Options) (line : List UInt8) : Option (Shape × Event) :=
  if maxLineLength < line.length then none else recognize? o.roles (Cee.strip line)

/-- An event as a line. Values may be left out when the line before was an event of the same form. -/
def rendered (o : Options) (s : StreamState) (shape : Shape) (e : Event) : String :=
  o.line (o.skipUnchanged && s.prior == some shape.format) (s.memory.get shape.format) e

/-- What is written for a line, and the state after it. -/
def step (o : Options) (s : StreamState) (line : List UInt8) : List UInt8 × StreamState :=
  match eventOf? o line with
  | some (shape, e) =>
    let s := s.enter shape.format
    (Text.encode (s.rendered o shape e) ++ [lineFeed], s.see shape e)
  | none => (line ++ [lineFeed], s.pass (maxLineLength < line.length))

end StreamState

/-! ### The lines of a stream -/

/-- A line without a carriage return at its end. -/
def chomp (line : List UInt8) : List UInt8 :=
  if line.getLast? = some carriageReturn then line.dropLast else line

/-- The pieces that line feeds end, after those in `done`, and the rest; `done` and `current` are held the last one
first. -/
def piecesFrom (done : List (List UInt8)) (current : List UInt8) : List UInt8 → List (List UInt8) × List UInt8
  | [] => (done.reverse, current.reverse)
  | b :: r => if b = lineFeed then piecesFrom (current.reverse :: done) [] r else piecesFrom done (b :: current) r

/-- The pieces of a stream that line feeds end, and the rest after the last line feed. -/
def pieces (bytes : List UInt8) : List (List UInt8) × List UInt8 := piecesFrom [] [] bytes

/-- The lines of a stream that is read to its end. -/
def linesOf (bytes : List UInt8) : List (List UInt8) :=
  let (ended, rest) := pieces bytes
  (if rest.isEmpty then ended else ended ++ [rest]).map chomp

/-- The lines of a stream that ends in a failure: an unfinished line is not one. -/
def finishedLines (bytes : List UInt8) : List (List UInt8) := (pieces bytes).1.map chomp

/-! ### Whole streams -/

/-- Where lines come from: bytes, and after them the end or a failure. -/
structure Source (ε : Type) where
  bytes : List UInt8
  failure : Option ε := none

/-- Where lines go: as many bytes as there is room for, and then a failure. -/
structure Sink (ε : Type) where
  room : Option Nat := none
  failure : ε

/-- How a stream ended. -/
structure Outcome (ε : Type) where
  output : List UInt8
  failure : Option ε
  state : StreamState

/-- The lines that a source gives. -/
def Source.lines {ε : Type} (source : Source ε) : List (List UInt8) :=
  match source.failure with
  | some _ => finishedLines source.bytes
  | none => linesOf source.bytes

/-- Writes lines while there is room; `done` holds what is written so far, the last line first, and `failure` is what
comes after the last line. -/
def writeLines {ε : Type} (o : Options) (sink : Sink ε) (failure : Option ε) (done : List (List UInt8))
    (room : Option Nat) (s : StreamState) : List (List UInt8) → Outcome ε
  | [] => ⟨done.reverse.flatten, failure, s⟩
  | line :: rest =>
    let (out, next) := s.step o line
    match room with
    | none => writeLines o sink failure (out :: done) none next rest
    | some n =>
      if out.length ≤ n then writeLines o sink failure (out :: done) (some (n - out.length)) next rest
      else ⟨(out.take n :: done).reverse.flatten, some sink.failure, next⟩

/-- Renders a stream line by line. -/
def runStream {ε : Type} (o : Options) (s : StreamState) (source : Source ε) (sink : Sink ε) : Outcome ε :=
  writeLines o sink source.failure [] sink.room s source.lines

end LegibleLog
