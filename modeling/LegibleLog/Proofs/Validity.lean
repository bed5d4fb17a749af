import LegibleLog.Config

/-!
# Valid configurations

* `bind_eq_ok_iff`, `mapError_eq_ok_iff` — when steps that may fail do not;
* `Config.Valid c` — all that is asked of a configuration, and `Config.validate_eq_ok_iff` says that this is what is
  checked.
-/

namespace LegibleLog

/-! ### Steps one after the other -/

section Steps

variable {ε ε' α β : Type}

theorem bind_eq_ok_iff {x : Except ε α} {f : α → Except ε β} {b : β} :
    (x >>= f) = .ok b ↔ ∃ a, x = .ok a ∧ f a = .ok b := by
  cases x with
  | error e => exact iff_of_false (fun h => nomatch h) fun ⟨_, h, _⟩ => nomatch h
  | ok a =>
    constructor
    · intro h
      exact ⟨a, rfl, h⟩
    · rintro ⟨_, ⟨⟩, h⟩
      exact h

theorem mapError_eq_ok_iff {x : Except ε α} {f : ε → ε'} {a : α} : x.mapError f = .ok a ↔ x = .ok a := by
  cases x with
  | error e => exact iff_of_false (fun h => nomatch h) fun h => nomatch h
  | ok b =>
    constructor
    · rintro ⟨⟩
      rfl
    · rintro ⟨⟩
      rfl

end Steps

namespace Config

variable {c : Config}

theorem refuseIf_eq_ok_iff {condition : Bool} {fault : ConfigFault} {u : Unit} :
    refuseIf condition fault = .ok u ↔ condition = false := by
  cases condition <;> simp [refuseIf]

/-! ### The check -/

/-- All that is asked of a configuration. -/
structure Valid (c : Config) : Prop where
  exclusive : c.skip = [] ∨ c.keep = []
  color : ∃ mode, ColorMode.ofWord c.colorMode = .ok mode
  timeKeys : c.timeKeys ≠ []
  messageKeys : c.messageKeys ≠ []
  levelKeys : c.levelKeys ≠ []
  truncateLength : c.truncate = true → 0 < c.truncateLength
  timeFormat : ∃ items, Time.Layout.parse? c.timeFormat.toList = some items
  palette : ∃ styles, Palette.compile c.palette = .ok styles

theorem color_eq_ok_iff {mode : ColorMode} : c.color = .ok mode ↔ ColorMode.ofWord c.colorMode = .ok mode :=
  mapError_eq_ok_iff

theorem styles_eq_ok_iff {styles : Palette Style} : c.styles = .ok styles ↔ Palette.compile c.palette = .ok styles :=
  mapError_eq_ok_iff

/-- **The check** passes exactly the valid configurations. -/
theorem validate_eq_ok_iff : c.validate = .ok () ↔ c.Valid := by
  have hsplit : c.validate = .ok () ↔ (!c.skip.isEmpty && !c.keep.isEmpty) = false ∧ (∃ mode, c.color = .ok mode) ∧
      c.timeKeys.isEmpty = false ∧ c.messageKeys.isEmpty = false ∧ c.levelKeys.isEmpty = false ∧
      (c.truncate && c.truncateLength == 0) = false ∧ (Time.Layout.parse? c.timeFormat.toList).isNone = false ∧
      ∃ styles, c.styles = .ok styles := by
    simp only [validate, bind_eq_ok_iff, refuseIf_eq_ok_iff, pure, Except.pure, exists_const, exists_and_right,
      and_true]
  rw [hsplit]
  constructor
  · rintro ⟨hexclusive, ⟨mode, hmode⟩, htime, hmessage, hlevel, htruncate, hformat, styles, hstyles⟩
    refine ⟨?_, ⟨mode, color_eq_ok_iff.mp hmode⟩, by simpa using htime, by simpa using hmessage, by simpa using hlevel,
      ?_, ?_, ⟨styles, styles_eq_ok_iff.mp hstyles⟩⟩
    · simpa [Classical.or_iff_not_imp_left] using hexclusive
    · intro hon
      simpa [hon, Nat.pos_iff_ne_zero] using htruncate
    · exact Option.isSome_iff_exists.mp (by simpa using hformat)
  · rintro ⟨hexclusive, ⟨mode, hmode⟩, htime, hmessage, hlevel, htruncate, ⟨items, hitems⟩, styles, hstyles⟩
    refine ⟨?_, ⟨mode, color_eq_ok_iff.mpr hmode⟩, by simpa using htime, by simpa using hmessage, by simpa using hlevel,
      ?_, by simp [hitems], styles, styles_eq_ok_iff.mpr hstyles⟩
    · simpa [Classical.or_iff_not_imp_left] using hexclusive
    · simpa [Nat.pos_iff_ne_zero] using htruncate

end Config

end LegibleLog
