import LegibleLog.Proofs.Runs

/-!
# Values that are left out

Which fields of a line stand without their values, told from the line and the one before it alone.

* `Options.Repeats` — a field says what the line before has said;
* `Options.partsAfter` — the parts of an event, given the event before;
* `StreamState.parts_of_recalls` — in a state that holds what the event before has left, these are the parts of a
  line;
* `StreamState.outputs_of_run` — and so they are for each line of a run.
-/

namespace LegibleLog

namespace Options

variable {o : Options} {before : Option (Shape × Event)} {f : Format} {field : String × String}

/-! ### Fields that are shown -/

theorem mem_shownFields_iff {fields : Fields} :
    field ∈ o.shownFields fields ↔ fields.get? field.1 = some field.2 ∧ o.showsField field.1 = true := by
  unfold shownFields
  split
  · rw [(List.mergeSort_perm _ _).mem_iff, List.mem_filter, ← Fields.mem_entries_iff]
  · rw [List.mem_filter, ← Fields.mem_entries_iff]

/-! ### The line before -/

/-- A field may stand without its value: this is asked for, the key is not kept, the value is not empty, and the line
before was an event of the same form with the same value under the key. -/
def Repeats (o : Options) (before : Option (Shape × Event)) (f : Format) (field : String × String) : Prop :=
  o.skipUnchanged = true ∧ field.1 ∉ o.keep ∧ field.2 ≠ "" ∧
    ∃ b ∈ before, b.1.format = f ∧ b.2.fields.get? field.1 = some field.2

instance (o : Options) (before : Option (Shape × Event)) (f : Format) (field : String × String) :
    Decidable (o.Repeats before f field) := by
  unfold Repeats
  infer_instance

/-- The part for a field, told from the event before. -/
def partAfter (o : Options) (before : Option (Shape × Event)) (f : Format) (field : String × String) : Part :=
  if o.Repeats before f field then .key field.1 else .field field.1 (o.shownValue field.2)

/-- The parts of an event, told from the event before. -/
def partsAfter (o : Options) (before : Option (Shape × Event)) (shape : Shape) (e : Event) : List Part :=
  o.roleParts e ++ (o.shownFields e.fields).map (o.partAfter before shape.format)

theorem repeats_of_none : ¬ o.Repeats none f field := by
  rintro ⟨-, -, -, b, hb, -⟩
  cases hb

theorem repeats_some_iff {b : Shape × Event} (hb : b.1.format = f) :
    o.Repeats (some b) f field ↔
      o.skipUnchanged = true ∧ field.1 ∉ o.keep ∧ field.2 ≠ "" ∧ b.2.fields.get? field.1 = some field.2 := by
  simp [Repeats, hb]

/-- Only an event of the same form counts. -/
theorem repeats_filter_iff : o.Repeats (before.filter (·.1.format = f)) f field ↔ o.Repeats before f field := by
  cases before with
  | none => rfl
  | some b =>
    by_cases hb : b.1.format = f
    · simp [Option.filter, hb]
    · simp [Option.filter, Repeats, hb]

/-- The part of a field when the fields in memory are those of an event before of the same form. -/
theorem fieldPart_of_some {b : Shape × Event} (hb : b.1.format = f) (field : String × String) :
    o.fieldPart o.skipUnchanged (Std.HashSet.ofList b.2.fields.entries).contains field =
      o.partAfter (some b) f field := by
  have hiff : (o.skipUnchanged && !o.pinsValue field.1 && !field.2.isEmpty &&
      (Std.HashSet.ofList b.2.fields.entries).contains field) = true ↔ o.Repeats (some b) f field := by
    rw [repeats_some_iff hb, ← Fields.mem_entries_iff]
    simp [pinsValue, and_assoc]
  unfold fieldPart partAfter
  by_cases h : o.Repeats (some b) f field
  · rw [if_pos (hiff.mpr h), if_pos h]
  · rw [if_neg (fun hc => h (hiff.mp hc)), if_neg h]

theorem fieldPart_of_false (wasThere : String × String → Bool) (field : String × String) :
    o.fieldPart false wasThere field = o.partAfter none f field := by
  rw [partAfter, if_neg repeats_of_none]
  rfl

/-! ### The part of one key -/

theorem key_notMem_roleParts (e : Event) (key : String) : Part.key key ∉ o.roleParts e := by
  unfold roleParts timePart? levelPart? messagePart?
  grind

theorem field_notMem_roleParts (e : Event) (key value : String) : Part.field key value ∉ o.roleParts e := by
  unfold roleParts timePart? levelPart? messagePart?
  grind

/-- A key stands alone exactly when its field repeats the line before. -/
theorem key_mem_partsAfter_iff {shape : Shape} {e : Event} {key value : String}
    (hget : e.fields.get? key = some value) (hshow : o.showsField key = true) :
    Part.key key ∈ o.partsAfter before shape e ↔ o.Repeats before shape.format (key, value) := by
  have hmem : (key, value) ∈ o.shownFields e.fields := mem_shownFields_iff.mpr ⟨hget, hshow⟩
  constructor
  · intro h
    obtain ⟨field, hfield, hpart⟩ := List.mem_map.mp ((List.mem_append.mp h).resolve_left (key_notMem_roleParts e key))
    unfold partAfter at hpart
    split at hpart
    · next hrep =>
      cases hpart
      have hvalue := (mem_shownFields_iff.mp hfield).1
      rw [hget, Option.some.injEq] at hvalue
      rw [hvalue]
      exact hrep
    · cases hpart
  · intro hrep
    refine List.mem_append_right _ (List.mem_map.mpr ⟨(key, value), hmem, ?_⟩)
    rw [partAfter, if_pos hrep]

/-- Otherwise the key stands with its value. -/
theorem field_mem_partsAfter_iff {shape : Shape} {e : Event} {key value : String}
    (hget : e.fields.get? key = some value) (hshow : o.showsField key = true) :
    Part.field key (o.shownValue value) ∈ o.partsAfter before shape e ↔
      ¬ o.Repeats before shape.format (key, value) := by
  have hmem : (key, value) ∈ o.shownFields e.fields := mem_shownFields_iff.mpr ⟨hget, hshow⟩
  constructor
  · intro h hrep
    obtain ⟨⟨k, v⟩, hfield, hpart⟩ :=
      List.mem_map.mp ((List.mem_append.mp h).resolve_left (field_notMem_roleParts e key _))
    unfold partAfter at hpart
    split at hpart
    · cases hpart
    · next hno =>
      obtain ⟨rfl, -⟩ := Part.field.inj hpart
      have hvalue := (mem_shownFields_iff.mp hfield).1
      rw [hget, Option.some.injEq] at hvalue
      subst hvalue
      exact hno hrep
  · intro hrep
    refine List.mem_append_right _ (List.mem_map.mpr ⟨(key, value), hmem, ?_⟩)
    rw [partAfter, if_neg hrep]

end Options

namespace StreamState

variable {o : Options} {s : StreamState}

/-! ### Lines -/

/-- **A line in a state.** A state that holds what the event before has left shows the parts of an event by it alone. -/
theorem parts_of_recalls {before : Option (Shape × Event)} (h : Recalls s before) (shape : Shape) (e : Event) :
    o.parts (o.skipUnchanged && (s.enter shape.format).prior == some shape.format)
      ((s.enter shape.format).memory.get shape.format) e = o.partsAfter before shape e := by
  have hin := h.enter shape.format
  unfold Options.parts Options.partsAfter
  refine congrArg (o.roleParts e ++ ·) (List.map_congr_left fun field _ => ?_)
  rw [hin.prior, hin.memory]
  have hfilter : o.partAfter (before.filter (·.1.format = shape.format)) shape.format field =
      o.partAfter before shape.format field := by
    unfold Options.partAfter
    simp only [Options.repeats_filter_iff]
  rw [← hfilter]
  cases hb : before.filter (fun b => decide (b.1.format = shape.format)) with
  | none =>
    have hgate : (o.skipUnchanged && (none : Option Format) == some shape.format) = false := by simp
    rw [Option.map_none, hgate]
    exact Options.fieldPart_of_false _ field
  | some b =>
    have hform : b.1.format = shape.format := by simpa using (Option.filter_eq_some_iff.mp hb).2
    have hfields : fieldsBefore (some b) shape.format = b.2.fields := if_pos hform
    rw [hfields, ← Options.fieldPart_of_some hform]
    simp [hform]

theorem rendered_of_recalls {before : Option (Shape × Event)} (h : Recalls s before) (shape : Shape) (e : Event) :
    (s.enter shape.format).rendered o shape e = o.partsText (o.partsAfter before shape e) :=
  congrArg o.partsText (parts_of_recalls h shape e)

/-- What is written for a line, told from the event before. -/
def written (o : Options) (before : Option (Shape × Event)) (line : List UInt8) : List UInt8 :=
  match eventOf? o line with
  | some (shape, e) => Text.encode (o.partsText (o.partsAfter before shape e)) ++ [lineFeed]
  | none => line ++ [lineFeed]

theorem step_fst_of_recalls {before : Option (Shape × Event)} (h : Recalls s before) (line : List UInt8) :
    (s.step o line).1 = written o before line := by
  unfold written
  cases hline : eventOf? o line with
  | none => rw [step_of_none hline]
  | some found => rw [step_of_event hline, rendered_of_recalls h]

theorem outputs_getElem?_eq_written (o : Options) (lines : List (List UInt8)) (i : Nat) :
    (outputs o {} lines)[i]? = lines[i]?.map (written o (eventBefore? o lines i)) := by
  rw [outputs_getElem?]
  cases hi : lines[i]? with
  | none => rfl
  | some line =>
    have hlt : i < lines.length := (List.getElem?_eq_some_iff.mp hi).1
    rw [Option.map_some, Option.map_some, step_fst_of_recalls (recalls_take o hlt)]

/-- **Lines of a run.** A field that is shown stands without its value exactly when it repeats the line before; what is
written for a line depends on that line and on the one before it only. -/
theorem outputs_of_run (o : Options) (lines : List (List UInt8)) (i : Nat) :
    (∀ shape e, lines[i]?.bind (eventOf? o) = some (shape, e) →
      (outputs o {} lines)[i]? =
        some (Text.encode (o.partsText (o.partsAfter (eventBefore? o lines i) shape e)) ++ [lineFeed]) ∧
      ∀ key value, e.fields.get? key = some value → o.showsField key = true →
        (Part.key key ∈ o.partsAfter (eventBefore? o lines i) shape e ↔
          o.Repeats (eventBefore? o lines i) shape.format (key, value)) ∧
        (Part.field key (o.shownValue value) ∈ o.partsAfter (eventBefore? o lines i) shape e ↔
          ¬ o.Repeats (eventBefore? o lines i) shape.format (key, value))) ∧
    ∀ others j, others[j]? = lines[i]? → lineBefore? others j = lineBefore? lines i →
      (outputs o {} others)[j]? = (outputs o {} lines)[i]? := by
  refine ⟨fun shape e h => ⟨?_, fun key value hget hshow => ?_⟩, fun others j hline hbefore => ?_⟩
  · obtain ⟨line, hi, hline⟩ := Option.bind_eq_some_iff.mp h
    rw [outputs_getElem?_eq_written, hi, Option.map_some, written, hline]
  · exact ⟨Options.key_mem_partsAfter_iff hget hshow, Options.field_mem_partsAfter_iff hget hshow⟩
  · rw [outputs_getElem?_eq_written, outputs_getElem?_eq_written, hline, eventBefore?, eventBefore?, hbefore]

/-- The second of two lines that are the same says its field without the value. -/
theorem outputs_of_run_twice :
    let lines := [Text.encode "k=v", Text.encode "k=v"]
    let e : Event := ⟨none, none, none, Fields.ofList [("k", "v")], ⟨none, none, none⟩⟩
    let before := eventBefore? {} lines 1
    lines[1]?.bind (eventOf? {}) = some (.bare .logfmt, e) ∧
      (outputs {} {} lines)[1]? =
        some (Text.encode (({} : Options).partsText (({} : Options).partsAfter before (.bare .logfmt) e)) ++
          [lineFeed]) ∧
      Part.key "k" ∈ ({} : Options).partsAfter before (.bare .logfmt) e := by
  intro lines e before
  have hevent : lines[1]?.bind (eventOf? {}) = some (.bare .logfmt, e) := by decide +kernel
  have hget : e.fields.get? "k" = some "v" := by decide +kernel
  have hrep : ({} : Options).Repeats before .logfmt ("k", "v") := by decide +kernel
  obtain ⟨hout, hfields⟩ := (outputs_of_run {} lines 1).1 _ e hevent
  exact ⟨hevent, hout, (hfields "k" "v" hget (by decide +kernel)).1.mpr hrep⟩

end StreamState

end LegibleLog
