import LegibleLog.Proofs.Classification
import LegibleLog.Proofs.Json.Canonical
import LegibleLog.Proofs.Shapes

/-!
# The members of the body of a console line

* `readJson_eq_ok` — the pairs of a record in JSON are the members of an object;
* `Shape.console_members` — what becomes of each member of the body of a console line.
-/

namespace LegibleLog

/-! ### Records in JSON -/

theorem readJson_eq_ok {bytes : List UInt8} {pairs : List (String × RawValue)} (h : readJson bytes = .ok pairs) :
    ∃ text members, Text.decode? bytes = some text ∧ Json.Value.ofText? text.toList = some (.object members) ∧
      pairs = members.map fun m => (m.1, RawValue.ofJson m.2) := by
  unfold readJson at h
  split at h
  · split at h
    · next members hm =>
      obtain ⟨text, htext, hv⟩ := Option.bind_eq_some_iff.mp hm
      cases h
      exact ⟨text, members, htext, hv, rfl⟩
    · cases h
    · cases h
  · cases h

/-- In a record in JSON, a member with a text is a field of the event, or it has one of its roles. -/
theorem Event.member_ofRecord {rules : RoleRules} {bytes : List UInt8} {e : Event}
    (h : Event.ofRecord .json rules bytes = .ok e) :
    ∃ text members, Text.decode? bytes = some text ∧ Json.Value.ofText? text.toList = some (.object members) ∧
      ∀ key value, (key, value) ∈ members → (RawValue.ofJson value).shown ≠ "" →
        (key ∉ e.roleKeys.claimed ∧ e.fields.get? key = some (RawValue.ofJson value).shown) ∨
        (e.HasRole rules.year (key, RawValue.ofJson value) ∧ e.fields.get? key = none) := by
  obtain ⟨pairs, hpairs, rfl⟩ := ofRecord_eq_ok_iff.mp h
  obtain ⟨text, members, htext, hv, rfl⟩ := readJson_eq_ok hpairs
  refine ⟨text, members, htext, hv, fun key value hmem hne => ?_⟩
  set pairs := members.map fun m => (m.1, RawValue.ofJson m.2) with hdef
  have hnodup : (pairs.map (·.1)).Nodup := by
    rw [hdef, List.map_map]
    exact (Json.keysAscend_of_ofText? hv).nodup_keys
  have hp : (key, RawValue.ofJson value) ∈ pairs :=
    List.mem_map_of_mem (f := fun m : String × Json.Value => (m.1, RawValue.ofJson m.2)) hmem
  have hget : (Event.ofPairs rules pairs).fields.get? key =
      if key ∈ (Event.ofPairs rules pairs).roleKeys.claimed then none else some (RawValue.ofJson value).shown :=
    get?_ofPairs_of_mem hnodup hp hne
  by_cases hc : key ∈ (Event.ofPairs rules pairs).roleKeys.claimed
  · rw [if_pos hc] at hget
    exact Or.inr ⟨hasRole_of_claimed hnodup hp hc, hget⟩
  · rw [if_neg hc] at hget
    exact Or.inl ⟨hc, hget⟩

/-! ### The body of a console line -/

namespace Shape

/-- **Members of a body.** The words of a console line take the three roles and the field `caller`. Every other member
of its body that has a text is a field of the event, unless it has a role in the event of the body alone: then the
words of the line stand in its place. -/
theorem console_members {rules : RoleRules} {line : List UInt8} {e : Event}
    (h : console.event rules line = .ok e) :
    ∃ zap text members inner, ZapLine.ofBytes? line = some zap ∧ Text.decode? zap.body = some text ∧
      Json.Value.ofText? text.toList = some (.object members) ∧ Event.ofRecord .json rules zap.body = .ok inner ∧
      e.timestamp = some zap.timestamp ∧ e.message = some zap.message ∧ e.level = some zap.level ∧
      e.fields.get? "caller" = some zap.caller ∧
      ∀ key value, (key, value) ∈ members → (RawValue.ofJson value).shown ≠ "" → key ≠ "caller" →
        (key ∉ inner.roleKeys.claimed ∧ e.fields.get? key = some (RawValue.ofJson value).shown) ∨
        (inner.HasRole rules.year (key, RawValue.ofJson value) ∧ e.fields.get? key = none) := by
  obtain ⟨zap, inner, hzap, hinner, rfl⟩ := console_cases h
  obtain ⟨text, members, htext, hv, hmembers⟩ := Event.member_ofRecord hinner
  refine ⟨zap, text, members, inner, hzap, htext, hv, hinner, rfl, rfl, rfl, ?_, fun key value hmem hne hkey => ?_⟩
  · simp [Fields.get?_insert]
  · simp only [Fields.get?_insert, if_neg hkey]
    exact hmembers key value hmem hne

/-- A body in which one member goes to the message, and gives way, and one stays. -/
theorem console_members_of_two :
    ∃ e, console.event {} (Text.encode
        "2021-02-05T12:41:48Z\tINFO\ta.go:1\thi\t\x7b\"message\":\"x\",\"n\":1\x7d") = .ok e ∧
      ∃ zap text members inner, ZapLine.ofBytes? (Text.encode
          "2021-02-05T12:41:48Z\tINFO\ta.go:1\thi\t\x7b\"message\":\"x\",\"n\":1\x7d") = some zap ∧
        Text.decode? zap.body = some text ∧ Json.Value.ofText? text.toList = some (.object members) ∧
        Event.ofRecord .json {} zap.body = .ok inner ∧
        e.timestamp = some zap.timestamp ∧ e.message = some zap.message ∧ e.level = some zap.level ∧
        e.fields.get? "caller" = some zap.caller ∧
        ∀ key value, (key, value) ∈ members → (RawValue.ofJson value).shown ≠ "" → key ≠ "caller" →
          (key ∉ inner.roleKeys.claimed ∧ e.fields.get? key = some (RawValue.ofJson value).shown) ∨
          (inner.HasRole 2025 (key, RawValue.ofJson value) ∧ e.fields.get? key = none) := by
  have h : console.event {} (Text.encode
      "2021-02-05T12:41:48Z\tINFO\ta.go:1\thi\t\x7b\"message\":\"x\",\"n\":1\x7d") =
      .ok ⟨some ⟨1612528908, 0, 0⟩, some "hi", some "info", Fields.ofList [("caller", "a.go:1"), ("n", "1")],
        consoleKeys⟩ := by
    decide +kernel
  exact ⟨_, h, console_members h⟩

/-- Of this body, neither the message nor the field `caller` is in a field of the event of its line, or has a role
there. -/
theorem console_loses_members_of_body :
    (ZapLine.ofBytes? (Text.encode
        "2021-02-05T12:41:48Z\tINFO\ta.go:1\thi\t\x7b\"caller\":\"b\",\"message\":\"x\"\x7d")).map
          (fun zap => readJson zap.body) = some (.ok [("caller", .text "b"), ("message", .text "x")]) ∧
      (∀ text ∈ ["b", "x"], (RawValue.text text).time? 2025 = none) ∧
      ∃ e, console.event {} (Text.encode
          "2021-02-05T12:41:48Z\tINFO\ta.go:1\thi\t\x7b\"caller\":\"b\",\"message\":\"x\"\x7d") = .ok e ∧
        e.fields.get? "caller" = some "a.go:1" ∧ e.fields.get? "message" = none ∧
        e.message = some "hi" ∧ e.level = some "info" := by
  refine ⟨by decide +kernel, by decide +kernel, ⟨some ⟨1612528908, 0, 0⟩, some "hi", some "info",
    Fields.ofList [("caller", "a.go:1")], consoleKeys⟩, by decide +kernel, by decide +kernel, by decide +kernel, ?_⟩
  exact ⟨rfl, rfl⟩

end Shape

end LegibleLog
