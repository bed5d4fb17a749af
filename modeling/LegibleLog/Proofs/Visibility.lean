import LegibleLog.Proofs.AnyOrder
import LegibleLog.Proofs.Unchanged

/-!
# Hidden fields leave no trace

The fields of an event are held for the event after it, those that are hidden as well; what is written does not tell
what these were.

* `Fields.AgreeOnShown o fields fields'` — two maps have the same under every key that is shown;
* `Options.shownFields_eq_of_agree`, `Options.fieldPart_eq_of_agree` — the same fields are shown, in the same order, and
  each is the same part, whichever of the two maps is held;
* `Event.SameButHidden o e e'` — two events differ in hidden fields only;
* `Options.renderings_eq_of_hidden` — two sequences of such events are the same lines.
-/

namespace LegibleLog

/-! ### Fields that agree where it shows -/

/-- Two maps have the same under every key that is shown. -/
def Fields.AgreeOnShown (o : Options) (fields fields' : Fields) : Prop :=
  ∀ key, o.showsField key = true → fields.get? key = fields'.get? key

theorem Fields.AgreeOnShown.refl (o : Options) (fields : Fields) : AgreeOnShown o fields fields := fun _ _ => rfl

/-- A hidden field may be there or not. -/
theorem Fields.agreeOnShown_insert {o : Options} {key : String} (h : o.showsField key = false) (fields : Fields)
    (value : String) : AgreeOnShown o (fields.insert key value) fields := by
  intro other hshow
  rw [get?_insert, if_neg]
  rintro rfl
  rw [h] at hshow
  cases hshow

/-- Two events differ in hidden fields only. -/
structure Event.SameButHidden (o : Options) (e e' : Event) : Prop where
  timestamp : e.timestamp = e'.timestamp
  message : e.message = e'.message
  level : e.level = e'.level
  roleKeys : e.roleKeys = e'.roleKeys
  fields : Fields.AgreeOnShown o e.fields e'.fields

namespace Options

variable {o : Options} {fields fields' held held' : Fields} {e e' : Event} {unchanged : Bool}

/-- The fields that are shown stand in the order of their keys, as all fields do, and each of them is in both maps. -/
theorem filter_entries_eq_of_agree (h : Fields.AgreeOnShown o fields fields') :
    (fields.entries.filter fun field => o.showsField field.1) =
      fields'.entries.filter fun field => o.showsField field.1 := by
  have hascend : KeysAscend (fields.entries.filter fun field => o.showsField field.1) :=
    fields.ascend.sublist List.filter_sublist
  have hascend' : KeysAscend (fields'.entries.filter fun field => o.showsField field.1) :=
    fields'.ascend.sublist List.filter_sublist
  refine hascend.eq_of_lookup hascend' fun key => Option.ext fun value => ?_
  rw [lookup_eq_some_iff_mem hascend.nodup_keys, lookup_eq_some_iff_mem hascend'.nodup_keys, List.mem_filter,
    List.mem_filter, Fields.mem_entries_iff, Fields.mem_entries_iff]
  refine and_congr_left fun hshow => ?_
  rw [h key hshow]

theorem shownFields_eq_of_agree (h : Fields.AgreeOnShown o fields fields') :
    o.shownFields fields = o.shownFields fields' := by
  unfold shownFields
  rw [filter_entries_eq_of_agree h]

/-- Whether a shown field was there before does not depend on the hidden ones. -/
theorem contains_eq_of_agree (h : Fields.AgreeOnShown o held held') {field : String × String}
    (hshow : o.showsField field.1 = true) : held.entries.contains field = held'.entries.contains field := by
  have hmem : field ∈ held.entries ↔ field ∈ held'.entries := by
    rw [Fields.mem_entries_iff, Fields.mem_entries_iff, h field.1 hshow]
  rw [Bool.eq_iff_iff, List.contains_iff_mem, List.contains_iff_mem, hmem]

theorem fieldPart_eq_of_agree (h : Fields.AgreeOnShown o held held') {field : String × String}
    (hshow : o.showsField field.1 = true) :
    o.fieldPart unchanged held.entries.contains field = o.fieldPart unchanged held'.entries.contains field := by
  unfold fieldPart
  rw [contains_eq_of_agree h hshow]

/-! ### Events that agree where it shows -/

theorem roleParts_eq_of_sameButHidden (h : e.SameButHidden o e') : o.roleParts e = o.roleParts e' := by
  unfold roleParts timePart? levelPart? messagePart?
  rw [h.timestamp, h.message, h.level, h.roleKeys]

theorem parts_eq (o : Options) (unchanged : Bool) (held : Fields) (e : Event) :
    o.parts unchanged held e =
      o.roleParts e ++ (o.shownFields e.fields).map (o.fieldPart unchanged held.entries.contains) := by
  have hcontains : (Std.HashSet.ofList held.entries).contains = held.entries.contains :=
    funext fun _ => Std.HashSet.contains_ofList
  rw [parts, hcontains]

theorem parts_eq_of_sameButHidden (hheld : Fields.AgreeOnShown o held held') (h : e.SameButHidden o e') :
    o.parts unchanged held e = o.parts unchanged held' e' := by
  rw [parts_eq, parts_eq, roleParts_eq_of_sameButHidden h, shownFields_eq_of_agree h.fields]
  refine congrArg (o.roleParts e' ++ ·) (List.map_congr_left fun field hfield => ?_)
  exact fieldPart_eq_of_agree hheld (mem_shownFields_iff.mp hfield).2

/-- **One event.** The line is the same, and again the fields that are held after it agree where it shows. -/
theorem render_of_sameButHidden (unchanged : Bool) (hheld : Fields.AgreeOnShown o held held')
    (h : e.SameButHidden o e') :
    (o.render held unchanged e).1 = (o.render held' unchanged e').1 ∧
      Fields.AgreeOnShown o (o.render held unchanged e).2 (o.render held' unchanged e').2 :=
  ⟨congrArg o.partsText (parts_eq_of_sameButHidden hheld h), h.fields⟩

/-! ### Events one after the other -/

/-- Two steps of a rendering differ in hidden fields only; they give the same leave to leave out values. -/
def SameStep (o : Options) (step step' : Bool × Event) : Prop := step.1 = step'.1 ∧ step.2.SameButHidden o step'.2

/-- **Hidden fields leave no trace.** When two sequences of events differ in hidden fields only, and so do the fields
that are held at their beginnings, they are the same lines. -/
theorem renderings_eq_of_hidden {steps steps' : List (Bool × Event)} (hheld : Fields.AgreeOnShown o held held')
    (h : List.Forall₂ o.SameStep steps steps') :
    (o.renderings held steps).map (·.1) = (o.renderings held' steps').map (·.1) := by
  induction h generalizing held held' with
  | nil => rfl
  | @cons step step' rest rest' hstep _ ih =>
    obtain ⟨unchanged, e⟩ := step
    obtain ⟨unchanged', e'⟩ := step'
    obtain ⟨rfl, he⟩ := hstep
    obtain ⟨hline, hnext⟩ := render_of_sameButHidden unchanged hheld he
    rw [renderings, renderings, List.map_cons, List.map_cons, hline, ih hnext]

/-- A process id is hidden. It may be there or not; the field that repeats is written without its value either way. -/
theorem renderings_eq_of_hidden_pid :
    let o : Options := { skip := ["pid"] }
    let event (fields : Fields) : Event := ⟨none, some "m", none, fields, ⟨none, some "msg", none⟩⟩
    let known := event (Fields.ofList [("k", "v")])
    let numbered := event ((Fields.ofList [("k", "v")]).insert "pid" "1")
    List.Forall₂ o.SameStep [(true, numbered), (true, known)] [(true, known), (true, numbered)] ∧
      (o.renderings Fields.empty [(true, numbered), (true, known)]).map (·.1) = ["m k=v", "m k"] ∧
      (o.renderings Fields.empty [(true, known), (true, numbered)]).map (·.1) = ["m k=v", "m k"] := by
  intro o event known numbered
  have hagree : Fields.AgreeOnShown o numbered.fields known.fields := Fields.agreeOnShown_insert (by decide) _ _
  have hfirst : numbered.SameButHidden o known := ⟨rfl, rfl, rfl, rfl, hagree⟩
  have hsecond : known.SameButHidden o numbered := ⟨rfl, rfl, rfl, rfl, fun key hkey => (hagree key hkey).symm⟩
  have hsteps : List.Forall₂ o.SameStep [(true, numbered), (true, known)] [(true, known), (true, numbered)] :=
    .cons ⟨rfl, hfirst⟩ (.cons ⟨rfl, hsecond⟩ .nil)
  have hlines : (o.renderings Fields.empty [(true, known), (true, numbered)]).map (·.1) = ["m k=v", "m k"] := by
    simp only [renderings, render, line, parts_eq, List.map_cons, List.map_nil]
    decide +kernel
  refine ⟨hsteps, ?_, hlines⟩
  rw [renderings_eq_of_hidden (Fields.AgreeOnShown.refl o Fields.empty) hsteps, hlines]

end Options

end LegibleLog
