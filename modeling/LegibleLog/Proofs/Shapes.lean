import LegibleLog.Shape

/-!
# What a line of a shape gives

Each lemma says all that one shape can do with a line that it accepts: which wrapper the line has, which record is in
the wrapper, and what becomes of the event of that record.

* `Event.ofRecord_eq_ok_iff` — a record alone;
* `Shape.contained_cases` — a record in the wrapper of a container runtime or of a composed service;
* `Shape.console_cases` — a console line.
-/

namespace LegibleLog

theorem map_eq_ok_iff {ε α β : Type} {x : Except ε α} {f : α → β} {b : β} :
    x.map f = .ok b ↔ ∃ a, x = .ok a ∧ f a = b := by
  cases x <;> simp [Except.map]

theorem Event.ofRecord_eq_ok_iff {f : Format} {rules : RoleRules} {bytes : List UInt8} {e : Event} :
    Event.ofRecord f rules bytes = .ok e ↔ ∃ pairs, f.read bytes = .ok pairs ∧ Event.ofPairs rules pairs = e :=
  map_eq_ok_iff

namespace Shape

variable {f : Format} {rules : RoleRules} {line : List UInt8} {e : Event}

@[simp]
theorem mem_all (s : Shape) : s ∈ all := by
  cases s with
  | bare f => cases f <;> decide
  | contained f => cases f <;> decide
  | console => decide

/-- A record in a wrapper: the runtime only fills in an absent time, the service only adds an absent field. -/
theorem contained_cases (h : (contained f).event rules line = .ok e) :
    (∃ cri inner, CriLine.ofBytes? line = some cri ∧ Event.ofRecord f rules cri.payload = .ok inner ∧
      e = { inner with timestamp := inner.timestamp <|> some cri.timestamp }) ∨
    ∃ compose inner, CriLine.ofBytes? line = none ∧ ComposeLine.ofBytes? line = some compose ∧
      Event.ofRecord f rules compose.payload = .ok inner ∧
      e = { inner with fields := inner.fields.insertNew "service" compose.service } := by
  unfold event containedEvent at h
  dsimp only at h
  split at h
  · next cri hcri =>
    obtain ⟨inner, hinner, rfl⟩ := map_eq_ok_iff.mp h
    exact Or.inl ⟨cri, inner, hcri, hinner, rfl⟩
  · next hcri =>
    split at h
    · next compose hcompose =>
      obtain ⟨inner, hinner, rfl⟩ := map_eq_ok_iff.mp h
      exact Or.inr ⟨compose, inner, hcri, hcompose, hinner, rfl⟩
    · cases h

/-- A console line: its own words take the three roles, whatever the body says. -/
theorem console_cases (h : console.event rules line = .ok e) :
    ∃ zap inner, ZapLine.ofBytes? line = some zap ∧ Event.ofRecord .json rules zap.body = .ok inner ∧
      e = { timestamp := some zap.timestamp, message := some zap.message, level := some zap.level,
            fields := inner.fields.insert "caller" zap.caller, roleKeys := consoleKeys } := by
  unfold event consoleEvent at h
  dsimp only at h
  split at h
  · next zap hzap =>
    obtain ⟨inner, hinner, rfl⟩ := map_eq_ok_iff.mp h
    exact ⟨zap, inner, hzap, hinner, rfl⟩
  · cases h

end Shape

end LegibleLog
