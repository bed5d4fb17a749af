import LegibleLog.Proofs.Fields
import LegibleLog.Stream
import Mathlib.Data.List.Induction

/-!
# Runs over lines

* `Options.render` — an event as a line, and the fields that are held after it, and `Options.renderings` for events one
  after the other; `Options.render_of_see` says that a stream renders events so;
* `StreamState.after o s lines` and `StreamState.outputs o s lines` — the state after lines, and what is written for
  each of them; `outputs_getElem?` puts the two together;
* `StreamState.Recalls` — the invariant of runs: a state holds what the event of the line before has left, and nothing
  else;
* `StreamState.recalls_step` and `StreamState.recalls_after` — each line, and so each run, keeps it.
-/

namespace LegibleLog

namespace Options

/-! ### Events one after the other -/

/-- Rendering one event: its line, and the fields that are held for the event after it. -/
def render (o : Options) (held : Fields) (unchanged : Bool) (e : Event) : String × Fields :=
  (o.line unchanged held e, e.fields)

/-- Rendering events one after the other, each with its own leave to leave out values: lines, and the fields that are
held after each of them. -/
def renderings (o : Options) : Fields → List (Bool × Event) → List (String × Fields)
  | _, [] => []
  | held, (unchanged, e) :: rest => o.render held unchanged e :: o.renderings (o.render held unchanged e).2 rest

/-- A stream renders events so, the fields being those held for the form of the event. -/
theorem render_of_see (o : Options) (s : StreamState) (shape : Shape) (e : Event) :
    o.render (s.memory.get shape.format) (o.skipUnchanged && s.prior == some shape.format) e =
      (s.rendered o shape e, (s.see shape e).memory.get shape.format) := by
  rw [StreamState.memory_see, Memory.get_set, if_pos rfl]
  rfl

end Options

namespace StreamState

variable {o : Options} {s : StreamState} {line : List UInt8} {shape : Shape} {e : Event}

/-! ### One line -/

theorem step_of_event (h : eventOf? o line = some (shape, e)) :
    s.step o line = (Text.encode ((s.enter shape.format).rendered o shape e) ++ [lineFeed],
      (s.enter shape.format).see shape e) := by
  simp only [step, h]

theorem step_of_none (h : eventOf? o line = none) :
    s.step o line = (line ++ [lineFeed], s.pass (maxLineLength < line.length)) := by
  simp only [step, h]

/-! ### Lines one after the other -/

/-- The state after lines. -/
def after (o : Options) (s : StreamState) (lines : List (List UInt8)) : StreamState :=
  lines.foldl (fun s line => (s.step o line).2) s

/-- What is written for each line. -/
def outputs (o : Options) : StreamState → List (List UInt8) → List (List UInt8)
  | _, [] => []
  | s, line :: lines => (s.step o line).1 :: outputs o (s.step o line).2 lines

@[simp]
theorem after_snoc (o : Options) (s : StreamState) (lines : List (List UInt8)) (line : List UInt8) :
    s.after o (lines ++ [line]) = ((s.after o lines).step o line).2 := by
  simp [after]

/-- A line is written in the state after the lines before it. -/
theorem outputs_getElem? (o : Options) (s : StreamState) (lines : List (List UInt8)) (i : Nat) :
    (s.outputs o lines)[i]? = lines[i]?.map fun line => ((s.after o (lines.take i)).step o line).1 := by
  induction lines generalizing s i with
  | nil => simp [outputs]
  | cons line lines ih =>
    cases i with
    | zero => simp [outputs, after]
    | succ i =>
      simp only [outputs, List.getElem?_cons_succ, List.take_succ_cons]
      exact ih (s.step o line).2 i

/-! ### What a state recalls -/

/-- The fields that the event of the line before has, if that is an event of the given form. -/
def fieldsBefore (before : Option (Shape × Event)) (f : Format) : Fields :=
  match before with
  | some (shape, e) => if shape.format = f then e.fields else Fields.empty
  | none => Fields.empty

/-- **The invariant of runs.** The state holds the form and the fields of the event of the line before, if it is one,
and no fields of any other form. -/
structure Recalls (s : StreamState) (before : Option (Shape × Event)) : Prop where
  prior : s.prior = before.map (·.1.format)
  memory : ∀ f, s.memory.get f = fieldsBefore before f

theorem recalls_reset (s : StreamState) : Recalls s.reset none where
  prior := prior_reset s
  memory f := by simp [fieldsBefore]

theorem recalls_new : Recalls {} none := recalls_reset {}

/-- To enter a form keeps what the event before has left exactly when it has that form. -/
theorem Recalls.enter {before : Option (Shape × Event)} (h : Recalls s before) (f : Format) :
    Recalls (s.enter f) (before.filter (·.1.format = f)) := by
  by_cases hf : s.prior = some f
  · rw [enter_of_prior_eq s f hf]
    obtain ⟨b, rfl, hb⟩ := Option.map_eq_some_iff.mp (h.prior.symm.trans hf)
    have hsame : (some b).filter (fun b => decide (b.1.format = f)) = some b := by simp [hb]
    rw [hsame]
    exact h
  · rw [enter_of_prior_ne s f hf]
    have hnone : before.filter (fun b => decide (b.1.format = f)) = none := by
      refine Option.filter_eq_none_iff.mpr fun b hb hform => hf ?_
      rw [h.prior, hb, Option.map_some, of_decide_eq_true hform]
    rw [hnone]
    exact recalls_reset s

/-- **One line.** The state after a line holds what its event leaves, whatever was before. -/
theorem recalls_step {before : Option (Shape × Event)} (h : Recalls s before) (line : List UInt8) :
    Recalls (s.step o line).2 (eventOf? o line) := by
  cases hline : eventOf? o line with
  | none =>
    rw [step_of_none hline]
    constructor
    · simp
    · simp [fieldsBefore]
  | some found =>
    obtain ⟨shape, e⟩ := found
    rw [step_of_event hline]
    refine ⟨prior_see _ shape e, fun g => ?_⟩
    rw [memory_see, Memory.get_set, fieldsBefore]
    by_cases hg : shape.format = g
    · rw [if_pos hg, if_pos hg]
    · rw [if_neg hg, if_neg hg, (h.enter shape.format).memory g]
      -- what is left from before has the form that is entered, and so not the form `g`
      cases hb : before.filter (fun b => decide (b.1.format = shape.format)) with
      | none => rfl
      | some b =>
        have hform : b.1.format = shape.format := by simpa using (Option.filter_eq_some_iff.mp hb).2
        rw [fieldsBefore, if_neg]
        rw [hform]
        exact hg

/-- **A whole run.** After lines, a new state holds what the last of them has left. -/
theorem recalls_after (o : Options) (lines : List (List UInt8)) :
    Recalls (after o {} lines) (lines.getLast?.bind (eventOf? o)) := by
  induction lines using List.reverseRecOn with
  | nil => exact recalls_new
  | append_singleton lines line ih =>
    rw [after_snoc, List.getLast?_concat, Option.bind_some]
    exact recalls_step ih line

/-- The line before line `i`. -/
def lineBefore? (lines : List (List UInt8)) : Nat → Option (List UInt8)
  | 0 => none
  | i + 1 => lines[i]?

/-- The event of the line before line `i`, if it is one. -/
def eventBefore? (o : Options) (lines : List (List UInt8)) (i : Nat) : Option (Shape × Event) :=
  (lineBefore? lines i).bind (eventOf? o)

theorem recalls_take (o : Options) {lines : List (List UInt8)} {i : Nat} (hi : i < lines.length) :
    Recalls (after o {} (lines.take i)) (eventBefore? o lines i) := by
  have h := recalls_after o (lines.take i)
  have hlast : (lines.take i).getLast? = lineBefore? lines i := by
    cases i with
    | zero => simp [lineBefore?]
    | succ i =>
      rw [List.getLast?_take, if_neg (by omega), Nat.add_sub_cancel, lineBefore?]
      rw [List.getElem?_eq_getElem (by omega), Option.some_or]
  rw [hlast] at h
  exact h

end StreamState

end LegibleLog
