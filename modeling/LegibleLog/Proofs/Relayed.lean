import LegibleLog.Proofs.Chunks

/-!
# Lines with the tag of a relay

A line is looked at without its tag, and written with it when it is no event.

* `Tagged line tagged` — a line as a relay passes it on;
* `StreamState.process_tagged` — one line: the tag makes no difference to the state, nor to what is written for an
  event;
* `StreamState.after_of_tagged`, `StreamState.outputs_of_tagged` — and so for a whole run, whichever of its lines have
  tags.
-/

namespace LegibleLog

variable {o : Options} {s : StreamState} {payload : List UInt8}

/-! ### Tags -/

namespace Cee

@[simp]
theorem strip_tag_append (payload : List UInt8) : strip (tag ++ payload) = payload := by
  have hprefix : tag.isPrefixOf (tag ++ payload) = true := List.isPrefixOf_iff_prefix.mpr (List.prefix_append _ _)
  rw [strip, if_pos hprefix, List.drop_left]

theorem strip_of_not_prefix (h : ¬ tag <+: payload) : strip payload = payload :=
  if_neg (mt List.isPrefixOf_iff_prefix.mp h)

@[simp]
theorem length_tag : tag.length = 6 := rfl

end Cee

/-- A line as a relay passes it on: as it is, or with a tag, if it had none and does not get too long to be looked at. -/
inductive Tagged (line : List UInt8) : List UInt8 → Prop where
  | same : Tagged line line
  | tagged (hplain : ¬ Cee.tag <+: line) (hlen : line.length + 6 ≤ maxLineLength) : Tagged line (Cee.tag ++ line)

namespace StreamState

/-! ### One line -/

/-- The tag does not count when a line is looked at. -/
theorem eventOf?_tag_append (hplain : ¬ Cee.tag <+: payload) (hlen : payload.length + 6 ≤ maxLineLength) :
    eventOf? o (Cee.tag ++ payload) = eventOf? o payload := by
  have htagged : ¬ maxLineLength < (Cee.tag ++ payload).length := by
    rw [List.length_append, Cee.length_tag]
    omega
  have hpayload : ¬ maxLineLength < payload.length := by omega
  rw [eventOf?, eventOf?, if_neg htagged, if_neg hpayload, Cee.strip_tag_append, Cee.strip_of_not_prefix hplain]

theorem step_tag_append (s : StreamState) (hplain : ¬ Cee.tag <+: payload)
    (hlen : payload.length + 6 ≤ maxLineLength) :
    s.step o (Cee.tag ++ payload) =
      (if Unrecognized o payload then Cee.tag ++ payload ++ [lineFeed] else (s.step o payload).1,
        (s.step o payload).2) := by
  have hevent := eventOf?_tag_append (o := o) hplain hlen
  split
  · next hpass =>
    have hnone := eventOf?_eq_none_iff.mpr hpass
    have htagged : ¬ maxLineLength < (Cee.tag ++ payload).length := by
      rw [List.length_append, Cee.length_tag]
      omega
    have hpayload : ¬ maxLineLength < payload.length := by omega
    rw [step_of_none hnone, step_of_none (hevent.trans hnone), decide_eq_false htagged, decide_eq_false hpayload]
  · next hpass =>
    obtain ⟨⟨shape, e⟩, hsome⟩ := Option.ne_none_iff_exists'.mp (mt eventOf?_eq_none_iff.mp hpass)
    rw [step_of_event hsome, step_of_event (hevent.trans hsome)]

/-- **The tag of a relay does not count.** A line with it leaves the same state as the line without it, whether the sink
fails or not. If the line is an event, the same is written for it; else it is written as it is, with its tag. -/
theorem process_tagged {ε : Type} (o : Options) (s : StreamState) (sink : Sink ε) (hplain : ¬ Cee.tag <+: payload)
    (hlen : payload.length + 6 ≤ maxLineLength) :
    (s.process o (Cee.tag ++ payload) sink).state = (s.process o payload sink).state ∧
      (¬ Unrecognized o payload → s.process o (Cee.tag ++ payload) sink = s.process o payload sink) ∧
      (Unrecognized o payload →
        (s.process o (Cee.tag ++ payload) sink).output = sink.accepted (Cee.tag ++ payload ++ [lineFeed])) := by
  rw [process_eq, process_eq, step_tag_append s hplain hlen]
  refine ⟨rfl, fun hevent => ?_, fun hpass => ?_⟩
  · rw [if_neg hevent]
  · rw [if_pos hpass]

/-- A tagged line after another event, of which it repeats a value. -/
theorem process_tagged_after :
    let payload := Text.encode "msg=n k=v"
    let s := after {} {} [Text.encode "msg=m k=v"]
    let sink : Sink Unit := ⟨none, ()⟩
    (¬ Cee.tag <+: payload ∧ payload.length + 6 ≤ maxLineLength ∧ ¬ Unrecognized {} payload) ∧
      s.process {} (Cee.tag ++ payload) sink = s.process {} payload sink := by
  intro payload s sink
  have hplain : ¬ Cee.tag <+: payload := by decide
  have hlen : payload.length + 6 ≤ maxLineLength := by decide
  have hevent : ¬ Unrecognized {} payload := by decide +kernel
  exact ⟨⟨hplain, hlen, hevent⟩, (process_tagged {} s sink hplain hlen).2.1 hevent⟩

/-! ### Lines one after the other -/

theorem step_of_tagged {line tagged : List UInt8} (h : Tagged line tagged) (s : StreamState) :
    (s.step o tagged).2 = (s.step o line).2 ∧
      ((s.step o tagged).1 = (s.step o line).1 ∨ (s.step o tagged).1 = Cee.tag ++ (s.step o line).1) := by
  cases h with
  | same => exact ⟨rfl, .inl rfl⟩
  | tagged hplain hlen =>
    rw [step_tag_append s hplain hlen]
    refine ⟨rfl, ?_⟩
    split
    · next hpass =>
      refine .inr ?_
      rw [step_of_none (eventOf?_eq_none_iff.mpr hpass), List.append_assoc]
    · exact .inl rfl

/-- **Tags in a run.** Whichever lines of a run have tags, the run ends in the same state. -/
theorem after_of_tagged {lines tagged : List (List UInt8)} (h : List.Forall₂ Tagged lines tagged) (s : StreamState) :
    s.after o tagged = s.after o lines := by
  induction h generalizing s with
  | nil => rfl
  | cons hline _ ih =>
    rw [after, after, List.foldl_cons, List.foldl_cons, (step_of_tagged hline s).1]
    exact ih _

/-- What is written for each line is the same, or the line with its tag. -/
theorem outputs_of_tagged {lines tagged : List (List UInt8)} (h : List.Forall₂ Tagged lines tagged) (s : StreamState) :
    List.Forall₂ (fun out tagged => tagged = out ∨ tagged = Cee.tag ++ out) (s.outputs o lines)
      (s.outputs o tagged) := by
  induction h generalizing s with
  | nil => exact .nil
  | cons hline _ ih =>
    obtain ⟨hstate, hout⟩ := step_of_tagged hline s (o := o)
    rw [outputs, outputs, hstate]
    exact .cons hout (ih _)

end StreamState

end LegibleLog
