import LegibleLog.Proofs.LineCount
import Mathlib.Data.List.Forall2

/-!
# Values that are left out stand above

A run that leaves repeated values out says as much as one that does not.

* `StreamState.partsAt o lines i` — the parts of line `i` of a run;
* `StreamState.Carries`, `StreamState.ShownBefore` — a line has a field, and the field was shown with its value on a
  line above, since when all lines have it;
* `StreamState.shownBefore_of_repeats` — this is so for every field that repeats the line before;
* `StreamState.outputs_abridged` — the two runs side by side.
-/

namespace LegibleLog

/-- The same options, where values that the line before had are left out or not. -/
def Options.leavingOut (o : Options) (b : Bool) : Options := { o with skipUnchanged := b }

namespace StreamState

variable {o : Options} {lines : List (List UInt8)} {i : Nat} {f : Format} {field : String × String}

/-! ### Lines of a run -/

/-- The parts of a line of a run in a new state; a line that is written as it is has none. -/
def partsAt (o : Options) (lines : List (List UInt8)) (i : Nat) : List Part :=
  match lines[i]? with
  | some line => (after o {} (lines.take i)).shownParts o line
  | none => []

theorem partsAt_eq {shape : Shape} {e : Event} (h : lines[i]?.bind (eventOf? o) = some (shape, e)) :
    partsAt o lines i = o.partsAfter (eventBefore? o lines i) shape e := by
  obtain ⟨line, hi, hline⟩ := Option.bind_eq_some_iff.mp h
  have hlt : i < lines.length := (List.getElem?_eq_some_iff.mp hi).1
  simp only [partsAt, hi]
  exact shownParts_of_recalls (recalls_take o hlt) hline

/-- The line is an event of a form that has a field. -/
def Carries (o : Options) (lines : List (List UInt8)) (i : Nat) (f : Format) (field : String × String) : Prop :=
  ∃ shape e, lines[i]?.bind (eventOf? o) = some (shape, e) ∧ shape.format = f ∧ e.fields.get? field.1 = some field.2

/-- The field was shown with its value on a line above, and all lines from there on have it. -/
def ShownBefore (o : Options) (lines : List (List UInt8)) (i : Nat) (f : Format) (field : String × String) : Prop :=
  ∃ j < i, Part.field field.1 (o.shownValue field.2) ∈ partsAt o lines j ∧
    ∀ k, j ≤ k → k ≤ i → Carries o lines k f field

theorem not_repeats_zero : ¬ o.Repeats (eventBefore? o lines 0) f field := Options.repeats_of_none

theorem carries_of_repeats_succ (h : o.Repeats (eventBefore? o lines (i + 1)) f field) : Carries o lines i f field := by
  obtain ⟨-, -, -, ⟨shape, e⟩, hbefore, hform, hget⟩ := h
  exact ⟨shape, e, hbefore, hform, hget⟩

/-- A field that a line has and that does not repeat the line before is shown with its value. -/
theorem field_mem_partsAt (hcarries : Carries o lines i f field) (hshow : o.showsField field.1 = true)
    (hrepeats : ¬ o.Repeats (eventBefore? o lines i) f field) :
    Part.field field.1 (o.shownValue field.2) ∈ partsAt o lines i := by
  obtain ⟨shape, e, hline, rfl, hget⟩ := hcarries
  rw [partsAt_eq hline, Options.field_mem_partsAfter_iff hget hshow]
  exact hrepeats

theorem carries_up_to_succ {j : Nat} (habove : ∀ k, j ≤ k → k ≤ i → Carries o lines k f field)
    (hlast : Carries o lines (i + 1) f field) : ∀ k, j ≤ k → k ≤ i + 1 → Carries o lines k f field := by
  intro k hjk hki
  by_cases hk : k = i + 1
  · rw [hk]
    exact hlast
  · exact habove k hjk (by omega)

/-- **Every value that is left out was shown.** Line by line upwards, the field either repeats the line before, too, or
it is shown there with its value; the first line of a run repeats nothing. -/
theorem shownBefore_of_repeats (hcarries : Carries o lines i f field) (hshow : o.showsField field.1 = true)
    (hrepeats : o.Repeats (eventBefore? o lines i) f field) : ShownBefore o lines i f field := by
  induction i with
  | zero => exact absurd hrepeats not_repeats_zero
  | succ i ih =>
    have habove : Carries o lines i f field := carries_of_repeats_succ hrepeats
    by_cases hagain : o.Repeats (eventBefore? o lines i) f field
    · obtain ⟨j, hj, hpart, hall⟩ := ih habove hagain
      exact ⟨j, by omega, hpart, carries_up_to_succ hall hcarries⟩
    · have hpart := field_mem_partsAt habove hshow hagain
      refine ⟨i, by omega, hpart, carries_up_to_succ (fun k hik hki => ?_) hcarries⟩
      have heq : k = i := by omega
      rw [heq]
      exact habove

/-! ### Two runs -/

theorem outputs_getElem?_of_event {line : List UInt8} (hi : lines[i]? = some line) (hline : eventOf? o line ≠ none) :
    (outputs o {} lines)[i]? = some (Text.encode (o.partsText (partsAt o lines i)) ++ [lineFeed]) := by
  obtain ⟨⟨shape, e⟩, hevent⟩ := Option.ne_none_iff_exists'.mp hline
  have hbind : lines[i]?.bind (eventOf? o) = some (shape, e) := by
    rw [hi, Option.bind_some, hevent]
  rw [outputs_getElem?_eq_written, hi, Option.map_some, written, hevent, partsAt_eq hbind]

/-- A part of a line of a run that leaves values out, and the part that stands there when none is left out: it is the
same, or the key of a field that was shown before. -/
def Abridges (o : Options) (lines : List (List UInt8)) (i : Nat) (f : Format) (p q : Part) : Prop :=
  p = q ∨ ∃ key value, p = .key key ∧ q = .field key (o.shownValue value) ∧
    ShownBefore (o.leavingOut true) lines i f (key, value)

theorem forall₂_parts {shape : Shape} {e : Event} (h : lines[i]?.bind (eventOf? o) = some (shape, e)) :
    List.Forall₂ (Abridges o lines i shape.format) (partsAt (o.leavingOut true) lines i)
      (partsAt (o.leavingOut false) lines i) := by
  have hon : lines[i]?.bind (eventOf? (o.leavingOut true)) = some (shape, e) := h
  have hoff : lines[i]?.bind (eventOf? (o.leavingOut false)) = some (shape, e) := h
  rw [partsAt_eq hon, partsAt_eq hoff]
  refine List.rel_append (List.forall₂_same.mpr fun p _ => .inl rfl) ?_
  rw [List.forall₂_map_left_iff, List.forall₂_map_right_iff]
  refine List.forall₂_same.mpr fun field hfield => ?_
  obtain ⟨hget, hshow⟩ := Options.mem_shownFields_iff.mp hfield
  have hfull : (o.leavingOut false).partAfter (eventBefore? (o.leavingOut false) lines i) shape.format field =
      .field field.1 (o.shownValue field.2) := by
    rw [Options.partAfter, if_neg fun hrepeats => Bool.false_ne_true hrepeats.1]
    rfl
  rw [hfull, Options.partAfter]
  split
  · next hrepeats =>
    have hcarries : Carries (o.leavingOut true) lines i shape.format field := ⟨shape, e, hon, rfl, hget⟩
    exact .inr ⟨field.1, field.2, rfl, rfl, shownBefore_of_repeats hcarries hshow hrepeats⟩
  · exact .inl rfl

/-- **Nothing is lost.** A run that leaves repeated values out and one that does not write the same for a line that is
no event. For an event they write the same parts in the same order, but for fields of which the first run writes the
key alone; each of these it has written with its value on a line above, and all lines from there on are events of the
same form with the same value under the key. -/
theorem outputs_abridged (o : Options) (lines : List (List UInt8)) (i : Nat) (line : List UInt8)
    (hi : lines[i]? = some line) :
    (eventOf? o line = none →
        (outputs (o.leavingOut true) {} lines)[i]? = some (line ++ [lineFeed]) ∧
          (outputs (o.leavingOut false) {} lines)[i]? = some (line ++ [lineFeed])) ∧
      ∀ shape e, eventOf? o line = some (shape, e) →
        (outputs (o.leavingOut true) {} lines)[i]? =
            some (Text.encode (o.partsText (partsAt (o.leavingOut true) lines i)) ++ [lineFeed]) ∧
          (outputs (o.leavingOut false) {} lines)[i]? =
            some (Text.encode (o.partsText (partsAt (o.leavingOut false) lines i)) ++ [lineFeed]) ∧
          List.Forall₂ (Abridges o lines i shape.format) (partsAt (o.leavingOut true) lines i)
            (partsAt (o.leavingOut false) lines i) := by
  constructor
  · intro hnone
    have hwritten : ∀ b,
        written (o.leavingOut b) (eventBefore? (o.leavingOut b) lines i) line = line ++ [lineFeed] := by
      intro b
      have heventless : eventOf? (o.leavingOut b) line = none := hnone
      rw [written, heventless]
    simp only [outputs_getElem?_eq_written, hi, Option.map_some, hwritten, and_self]
  · intro shape e hevent
    have hsome : ∀ b, eventOf? (o.leavingOut b) line ≠ none := by
      intro b hnone
      have heventless : eventOf? o line = none := hnone
      rw [hevent] at heventless
      cases heventless
    have hbind : lines[i]?.bind (eventOf? o) = some (shape, e) := by
      rw [hi, Option.bind_some, hevent]
    exact ⟨outputs_getElem?_of_event hi (hsome true), outputs_getElem?_of_event hi (hsome false), forall₂_parts hbind⟩

/-- The third of three lines that are the same says the key alone, and its value stands above. -/
theorem outputs_abridged_thrice :
    let lines := List.replicate 3 (Text.encode "k=v")
    let on := ({} : Options).leavingOut true
    lines[2]? = some (Text.encode "k=v") ∧ partsAt on lines 2 = [.message true absentMessage, .key "k"] ∧
      ShownBefore on lines 2 .logfmt ("k", "v") := by
  intro lines on
  have hi : lines[2]? = some (Text.encode "k=v") := rfl
  let e : Event := ⟨none, none, none, Fields.ofList [("k", "v")], ⟨none, none, none⟩⟩
  have hevent : eventOf? {} (Text.encode "k=v") = some (.bare .logfmt, e) := by decide +kernel
  have hbind : ∀ b, lines[2]?.bind (eventOf? (({} : Options).leavingOut b)) = some (.bare .logfmt, e) :=
    fun _ => hevent
  have hon : partsAt on lines 2 = [.message true absentMessage, .key "k"] := by
    rw [partsAt_eq (hbind true)]
    decide +kernel
  have hoff : partsAt (({} : Options).leavingOut false) lines 2 = [.message true absentMessage, .field "k" "v"] := by
    rw [partsAt_eq (hbind false)]
    decide +kernel
  obtain ⟨-, -, hparts⟩ := (outputs_abridged {} lines 2 _ hi).2 _ _ hevent
  rw [hon, hoff] at hparts
  obtain ⟨-, hrest⟩ := List.forall₂_cons.mp hparts
  obtain ⟨hkey, -⟩ := List.forall₂_cons.mp hrest
  refine ⟨hi, hon, ?_⟩
  rcases hkey with heq | ⟨key, value, hkey, hfield, hshown⟩
  · cases heq
  · cases hkey
    cases hfield
    exact hshown

end StreamState

end LegibleLog
