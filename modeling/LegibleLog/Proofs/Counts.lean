import LegibleLog.Proofs.Chunks

/-!
# Counts of lines

* `ShapeCounts.total` — how many lines had any shape;
* `FirstTakes o line shape` — of the shapes that take a line, this one is tried first; `firstTakes_iff` says that the
  event of the line is then of this shape;
* `Stats.Counts` — the invariant: the counts are those of the lines so far; `Stats.counts_step` and `Stats.counts_after`
  keep it;
* `StreamState.counts_of_calls` — what the counts say after lines that were processed one by one, whether their sinks
  failed or not.
-/

namespace LegibleLog

/-! ### Counts by shape -/

namespace ShapeCounts

/-- How many lines had any shape. -/
def total (c : ShapeCounts) : Nat := Shape.all.foldl (fun n shape => n + c.get shape) 0

@[simp]
theorem total_count (c : ShapeCounts) (shape : Shape) : (c.count shape).total = c.total + 1 := by
  rcases shape with ⟨_ | _⟩ | ⟨_ | _⟩ | _
  all_goals
    simp only [total, Shape.all, List.foldl_cons, List.foldl_nil, get, count]
    omega

end ShapeCounts

/-! ### The first shape of a line -/

/-- Of the shapes that take a line, its tag taken off, this one is tried first; and the line is not too long to be
looked at. -/
def FirstTakes (o : Options) (line : List UInt8) (shape : Shape) : Prop :=
  line.length ≤ maxLineLength ∧
    ∃ earlier later e, Shape.all = earlier ++ shape :: later ∧ shape.event o.roles (Cee.strip line) = .ok e ∧
      ∀ other ∈ earlier, ∀ e', other.event o.roles (Cee.strip line) ≠ .ok e'

theorem recognize?_eq_some_iff {rules : RoleRules} {line : List UInt8} {shape : Shape} {e : Event} :
    recognize? rules line = some (shape, e) ↔
      ∃ earlier later, Shape.all = earlier ++ shape :: later ∧ shape.event rules line = .ok e ∧
        ∀ other ∈ earlier, ∀ e', other.event rules line ≠ .ok e' := by
  rw [recognize?, List.findSome?_eq_some_iff]
  constructor
  · rintro ⟨earlier, first, later, hall, hfirst, hearlier⟩
    split at hfirst
    · next e' he =>
      cases hfirst
      refine ⟨earlier, later, hall, he, fun other hother e' he' => ?_⟩
      have hnone := hearlier other hother
      rw [he'] at hnone
      cases hnone
    · cases hfirst
  · rintro ⟨earlier, later, hall, he, hearlier⟩
    refine ⟨earlier, shape, later, hall, by rw [he], fun other hother => ?_⟩
    cases hother' : other.event rules line with
    | ok e' => exact absurd hother' (hearlier other hother e')
    | error _ => rfl

theorem firstTakes_iff {o : Options} {line : List UInt8} {shape : Shape} :
    FirstTakes o line shape ↔ (StreamState.eventOf? o line).map (·.1) = some shape := by
  unfold FirstTakes StreamState.eventOf?
  by_cases hlong : maxLineLength < line.length
  · rw [if_pos hlong]
    exact iff_of_false (fun htakes => absurd htakes.1 (Nat.not_le.mpr hlong)) (by simp)
  · rw [if_neg hlong]
    constructor
    · rintro ⟨-, earlier, later, e, htakes⟩
      rw [recognize?_eq_some_iff.mpr ⟨earlier, later, htakes⟩]
      rfl
    · intro h
      obtain ⟨⟨_, e⟩, hevent, rfl⟩ := Option.map_eq_some_iff.mp h
      obtain ⟨earlier, later, htakes⟩ := recognize?_eq_some_iff.mp hevent
      exact ⟨Nat.not_lt.mp hlong, earlier, later, e, htakes⟩

instance (o : Options) (line : List UInt8) (shape : Shape) : Decidable (FirstTakes o line shape) :=
  decidable_of_iff _ firstTakes_iff.symm

/-! ### The counts of a stream -/

namespace Stats

variable {o : Options} {seen : List (List UInt8)}

/-- **The invariant of counts.** They are the counts of the lines so far, each of which was written as it is or had a
shape. -/
structure Counts (o : Options) (seen : List (List UInt8)) (stats : Stats) : Prop where
  lines : stats.lines = seen.length
  passed : stats.passed = seen.countP fun line => Unrecognized o line
  oversized : stats.oversized = seen.countP fun line => maxLineLength < line.length
  recognized : ∀ shape, stats.recognized.get shape = seen.countP fun line => FirstTakes o line shape
  all : stats.lines = stats.passed + stats.recognized.total

theorem counts_new (o : Options) : Counts o [] {} where
  lines := rfl
  passed := rfl
  oversized := rfl
  recognized := ShapeCounts.get_empty
  all := rfl

/-- **One line.** -/
theorem counts_step {s : StreamState} (h : Counts o seen s.stats) (line : List UInt8) :
    Counts o (seen ++ [line]) (s.step o line).2.stats := by
  obtain ⟨hlines, hpassed, hoversized, hrecognized, hall⟩ := h
  cases hevent : StreamState.eventOf? o line with
  | none =>
    have hpass : Unrecognized o line := eventOf?_eq_none_iff.mp hevent
    have hfirst : ∀ shape, ¬ FirstTakes o line shape := fun shape htakes => by
      rw [firstTakes_iff, hevent] at htakes
      cases htakes
    rw [StreamState.step_of_none hevent]
    constructor
    · simp [hlines]
    · simp [hpassed, hpass]
    · simp [hoversized]
    · intro shape
      simp [hrecognized, hfirst]
    · rw [StreamState.lines_pass, StreamState.passed_pass, StreamState.recognized_pass, hall]
      omega
  | some found =>
    obtain ⟨shape, e⟩ := found
    have hpass : ¬ Unrecognized o line := fun hpass => by
      rw [eventOf?_eq_none_iff.mpr hpass] at hevent
      cases hevent
    have hlong : ¬ maxLineLength < line.length := fun hlong => hpass (.inl hlong)
    have hfirst : ∀ other, FirstTakes o line other ↔ shape = other := fun other => by
      rw [firstTakes_iff, hevent]
      simp
    rw [StreamState.step_of_event hevent]
    constructor
    · simp [hlines]
    · simp [hpassed, hpass]
    · simp [hoversized, hlong]
    · intro other
      simp [hrecognized, hfirst]
    · rw [StreamState.lines_see, StreamState.passed_see, StreamState.recognized_see, StreamState.stats_enter,
        ShapeCounts.total_count, hall]
      omega

/-- **A whole run.** -/
theorem counts_after (o : Options) (lines : List (List UInt8)) :
    Counts o lines (StreamState.after o {} lines).stats := by
  induction lines using List.reverseRecOn with
  | nil => exact counts_new o
  | append_singleton lines line ih =>
    rw [StreamState.after_snoc]
    exact counts_step ih line

/-- A line that is too long is written as it is. -/
theorem Counts.oversized_le {stats : Stats} (h : Counts o seen stats) : stats.oversized ≤ stats.passed := by
  rw [h.oversized, h.passed]
  refine List.countP_mono_left fun line _ hlong => ?_
  exact decide_eq_true (.inl (of_decide_eq_true hlong))

end Stats

namespace StreamState

variable {ε : Type}

/-- The state after lines that were processed one by one, each with a sink of its own. -/
def afterCalls (o : Options) (s : StreamState) (calls : List (List UInt8 × Sink ε)) : StreamState :=
  calls.foldl (fun s call => (s.process o call.1 call.2).state) s

/-- The sinks do not matter. -/
theorem afterCalls_eq (o : Options) (s : StreamState) (calls : List (List UInt8 × Sink ε)) :
    s.afterCalls o calls = s.after o (calls.map (·.1)) := by
  simp only [afterCalls, after, List.foldl_map, process_eq]

/-- There is no form of the line before exactly when no line was processed or the last one was written as it is. -/
theorem prior_after_eq_none_iff (o : Options) (lines : List (List UInt8)) :
    (after o {} lines).prior = none ↔ lines = [] ∨ ∃ line, lines.getLast? = some line ∧ Unrecognized o line := by
  rw [(recalls_after o lines).prior, Option.map_eq_none_iff]
  cases hlast : lines.getLast? with
  | none => simp [List.getLast?_eq_none_iff.mp hlast]
  | some line =>
    have hne : lines ≠ [] := by
      rintro rfl
      cases hlast
    simp [hne, eventOf?_eq_none_iff]

/-- **The counts are consistent.** After lines that were processed one by one, whether their sinks failed or not, each
line is counted, as one that was written as it is or for the first shape that takes it; those that are too long are
among the former. -/
theorem counts_of_calls (o : Options) (calls : List (List UInt8 × Sink ε)) :
    let lines := calls.map (·.1)
    let s := afterCalls o {} calls
    s.stats.lines = lines.length ∧
      s.stats.lines = s.stats.passed + s.stats.recognized.total ∧
      (s.stats.passed = lines.countP fun line => Unrecognized o line) ∧
      (s.stats.oversized = lines.countP fun line => maxLineLength < line.length) ∧
      s.stats.oversized ≤ s.stats.passed ∧
      (∀ shape, s.stats.recognized.get shape = lines.countP fun line => FirstTakes o line shape) ∧
      (s.prior = none ↔ lines = [] ∨ ∃ line, lines.getLast? = some line ∧ Unrecognized o line) := by
  intro lines s
  have hstate : s = after o {} lines := afterCalls_eq o {} calls
  have hcounts := Stats.counts_after o lines
  rw [hstate]
  exact ⟨hcounts.lines, hcounts.all, hcounts.passed, hcounts.oversized, hcounts.oversized_le, hcounts.recognized,
    prior_after_eq_none_iff o lines⟩

end StreamState

end LegibleLog
