import LegibleLog.Proofs.Classification
import LegibleLog.Proofs.Shapes

/-!
# Keys with a role and keys of fields

The event of a record keeps the two apart.  The wrappers do so only as long as what they add does not meet them: the
name of a service may come back under a key that has a role, and a console line goes by keys that its body may have.

* `Shape.Undisturbed` — when the wrapper of a line leaves the two apart;
* `Shape.separated_iff_undisturbed` — this is exactly when the event of the line satisfies `Event.Separated`.
-/

namespace LegibleLog

namespace Shape

/-- The wrapper of a line does not disturb the roles of the record in it. A service must not have a name where a key
has a role already, and the body of a console line must not have fields under the keys that the line goes by. -/
def Undisturbed (s : Shape) (rules : RoleRules) (line : List UInt8) : Prop :=
  match s with
  | bare _ => True
  | contained f =>
    CriLine.ofBytes? line = none → ∀ compose inner, ComposeLine.ofBytes? line = some compose →
      Event.ofRecord f rules compose.payload = .ok inner → "service" ∉ inner.roleKeys.claimed
  | console =>
    ∀ zap inner, ZapLine.ofBytes? line = some zap → Event.ofRecord .json rules zap.body = .ok inner →
      ∀ key ∈ consoleKeys.claimed, inner.fields.get? key = none

end Shape

theorem Shape.nodup_consoleKeys : Shape.consoleKeys.claimed.Nodup := by decide

namespace Event

variable {e : Event}

theorem separated_ofRecord {f : Format} {rules : RoleRules} {bytes : List UInt8}
    (h : Event.ofRecord f rules bytes = .ok e) : e.Separated := by
  obtain ⟨pairs, -, rfl⟩ := ofRecord_eq_ok_iff.mp h
  exact separated_ofPairs rules pairs

/-- A field that is added to an event stays apart from the roles exactly when its key has none. -/
theorem separated_insertNew_iff (h : e.Separated) (key value : String) :
    ({ e with fields := e.fields.insertNew key value } : Event).Separated ↔ key ∉ e.roleKeys.claimed := by
  constructor
  · intro hs hkey
    have hnone := hs.apart key hkey
    simp at hnone
  · intro hkey
    refine ⟨h.nodup, fun other hother => ?_⟩
    have hne : other ≠ key := fun heq => hkey (heq ▸ hother)
    rw [Fields.get?_insertNew, if_neg hne]
    exact h.apart other hother

theorem separated_console_iff (fields : Fields) (zap : ZapLine) :
    ({ timestamp := some zap.timestamp, message := some zap.message, level := some zap.level,
       fields := fields.insert "caller" zap.caller, roleKeys := Shape.consoleKeys } : Event).Separated ↔
      ∀ key ∈ Shape.consoleKeys.claimed, fields.get? key = none := by
  have hget : ∀ key ∈ Shape.consoleKeys.claimed, (fields.insert "caller" zap.caller).get? key = fields.get? key := by
    intro key hkey
    have hne : key ≠ "caller" := by
      rintro rfl
      revert hkey
      decide
    rw [Fields.get?_insert, if_neg hne]
  constructor
  · intro hs key hkey
    rw [← hget key hkey]
    exact hs.apart key hkey
  · intro h
    refine ⟨Shape.nodup_consoleKeys, fun key hkey => ?_⟩
    rw [hget key hkey]
    exact h key hkey

end Event

namespace Shape

variable {rules : RoleRules} {line : List UInt8} {e : Event}

theorem nodup_claimed_event (s : Shape) (h : s.event rules line = .ok e) : e.roleKeys.claimed.Nodup := by
  cases s with
  | bare f => exact (Event.separated_ofRecord h).nodup
  | contained f =>
    rcases contained_cases h with ⟨cri, inner, -, hinner, rfl⟩ | ⟨compose, inner, -, -, hinner, rfl⟩
    · exact (Event.separated_ofRecord hinner).nodup
    · exact (Event.separated_ofRecord hinner).nodup
  | console =>
    obtain ⟨zap, inner, -, -, rfl⟩ := console_cases h
    exact nodup_consoleKeys

theorem undisturbed_of_cri {f : Format} {cri : CriLine} (hcri : CriLine.ofBytes? line = some cri) :
    (contained f).Undisturbed rules line := by
  intro hnone
  rw [hcri] at hnone
  cases hnone

theorem undisturbed_compose_iff {f : Format} {compose : ComposeLine} {inner : Event}
    (hcri : CriLine.ofBytes? line = none) (hcompose : ComposeLine.ofBytes? line = some compose)
    (hinner : Event.ofRecord f rules compose.payload = .ok inner) :
    (contained f).Undisturbed rules line ↔ "service" ∉ inner.roleKeys.claimed := by
  constructor
  · intro h
    exact h hcri compose inner hcompose hinner
  · intro h _ compose' inner' hcompose' hinner'
    obtain rfl := Option.some.inj (hcompose.symm.trans hcompose')
    obtain rfl := Except.ok.inj (hinner.symm.trans hinner')
    exact h

theorem undisturbed_console_iff {zap : ZapLine} {inner : Event} (hzap : ZapLine.ofBytes? line = some zap)
    (hinner : Event.ofRecord .json rules zap.body = .ok inner) :
    console.Undisturbed rules line ↔ ∀ key ∈ consoleKeys.claimed, inner.fields.get? key = none := by
  constructor
  · intro h
    exact h zap inner hzap hinner
  · intro h zap' inner' hzap' hinner'
    obtain rfl := Option.some.inj (hzap.symm.trans hzap')
    obtain rfl := Except.ok.inj (hinner.symm.trans hinner')
    exact h

/-- **Roles and fields.** The keys with a role are distinct in the event of every line; they are apart from the keys
of its fields exactly when the wrapper of the line does not disturb them. -/
theorem separated_iff_undisturbed (s : Shape) (h : s.event rules line = .ok e) :
    e.roleKeys.claimed.Nodup ∧ (e.Separated ↔ s.Undisturbed rules line) := by
  refine ⟨nodup_claimed_event s h, ?_⟩
  cases s with
  | bare f => exact iff_of_true (Event.separated_ofRecord h) trivial
  | contained f =>
    rcases contained_cases h with ⟨cri, inner, hcri, hinner, rfl⟩ | ⟨compose, inner, hcri, hcompose, hinner, rfl⟩
    · have hs := Event.separated_ofRecord hinner
      exact iff_of_true ⟨hs.nodup, hs.apart⟩ (undisturbed_of_cri hcri)
    · rw [Event.separated_insertNew_iff (Event.separated_ofRecord hinner),
        undisturbed_compose_iff hcri hcompose hinner]
  | console =>
    obtain ⟨zap, inner, hzap, hinner, rfl⟩ := console_cases h
    rw [Event.separated_console_iff, undisturbed_console_iff hzap hinner]

/-- The key of the message is the one that the name of the service goes by. -/
theorem separated_iff_undisturbed_service :
    ∃ e, (contained .json).event { messageKeys := ["service"] }
        (Text.encode "web | \x7b\"service\":\"x\"\x7d") = .ok e ∧
      e.roleKeys.message = some "service" ∧ e.roleKeys.claimed.Nodup ∧
      (e.Separated ↔ (contained .json).Undisturbed { messageKeys := ["service"] }
        (Text.encode "web | \x7b\"service\":\"x\"\x7d")) := by
  have h : (contained .json).event { messageKeys := ["service"] }
      (Text.encode "web | \x7b\"service\":\"x\"\x7d") =
      .ok ⟨none, some "x", none, Fields.ofList [("service", "web")], ⟨none, some "service", none⟩⟩ := by
    decide +kernel
  exact ⟨_, h, rfl, separated_iff_undisturbed (contained .json) h⟩

/-- The body of a console line has a field under the key that the message of the line goes by, so that the two are not
apart. -/
theorem console_field_under_message_key :
    ∃ e, console.event {} (Text.encode
        "2021-02-05T12:41:48Z\tINFO\ta.go:1\thi\t\x7b\"message\":\"x\",\"msg\":\"y\"\x7d") = .ok e ∧
      e.roleKeys.message = some "msg" ∧ e.fields.get? "msg" = some "y" ∧ ¬ e.Separated := by
  have hevent : console.event {} (Text.encode
      "2021-02-05T12:41:48Z\tINFO\ta.go:1\thi\t\x7b\"message\":\"x\",\"msg\":\"y\"\x7d") =
      .ok ⟨some ⟨1612528908, 0, 0⟩, some "hi", some "info", Fields.ofList [("caller", "a.go:1"), ("msg", "y")],
        consoleKeys⟩ := by
    decide +kernel
  have hfield : (Fields.ofList [("caller", "a.go:1"), ("msg", "y")]).get? "msg" = some "y" := by decide +kernel
  refine ⟨_, hevent, rfl, hfield, fun hs => ?_⟩
  have hnone := hs.apart "msg" (by decide)
  rw [hfield] at hnone
  cases hnone

end Shape

end LegibleLog
