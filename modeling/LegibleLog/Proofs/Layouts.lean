import LegibleLog.Proofs.Validity
import LegibleLog.Render.Line
import Mathlib.Data.List.Basic

/-!
# Times by a checked layout

A layout is checked long before there is a time to write by it, and the check only asks for items.

* `Layout.parse?_append` — a layout is read up to where another one begins;
* `Layout.AsksAnyOffset cs` — the directive for an offset in any form stands in a layout, as layouts are read;
  `Layout.anyOffset_mem_iff` tells it from the items;
* `Layout.write?_of_notMem`, `Layout.write?_of_mem` — items without this one write every time, items with it none;
* `Config.timeText_of_validate` — what this means for the times of a valid configuration.
-/

namespace LegibleLog

namespace Time

/-! ### Where a directive ends -/

namespace Layout

variable {cs rest : List Char} {items : List Item}

theorem anyOffset_notMem_otherItems? {c : Char} (h : otherItems? c = some items) : .anyOffset ∉ items := by
  unfold otherItems? at h
  split at h
  all_goals cases h
  all_goals decide

/-- What a directive by a letter is read from: it is read so whatever follows, and is none for an offset in any form. -/
theorem exists_of_lettered? (h : lettered? cs = some (items, rest)) :
    ∃ name, cs = name ++ rest ∧ (∀ more, lettered? (name ++ more) = some (items, more)) ∧ .anyOffset ∉ items := by
  cases cs with
  | nil => cases h
  | cons c r =>
    unfold lettered? at h
    cases hpad : padding? c with
    | some pad =>
      cases r with
      | nil => simp [hpad] at h
      | cons d r =>
        simp only [hpad, Option.map_eq_some_iff, Prod.mk.injEq] at h
        obtain ⟨field, hfield, rfl, rfl⟩ := h
        exact ⟨[c, d], rfl, fun more => by simp [lettered?, hpad, hfield], by simp⟩
    | none =>
      simp only [hpad] at h
      split at h
      · next hfield =>
        cases h
        exact ⟨[c], rfl, fun more => by simp [lettered?, hpad, hfield], by simp⟩
      · next hfield =>
        obtain ⟨others, hothers, heq⟩ := Option.map_eq_some_iff.mp h
        cases heq
        exact ⟨[c], rfl, fun more => by simp [lettered?, hpad, hfield, hothers], anyOffset_notMem_otherItems? hothers⟩

/-- A directive that is more than a letter begins with one of these characters, and no other does. -/
theorem lettered?_of_mark {c : Char} (hc : c ∈ ['#', '.', '3', '6', '9', ':']) (r : List Char) :
    lettered? (c :: r) = none := by
  obtain ⟨hpad, hfield, hothers⟩ : padding? c = none ∧ numberField? c = none ∧ otherItems? c = none := by
    simp only [List.mem_cons, List.not_mem_nil, or_false] at hc
    rcases hc with rfl | rfl | rfl | rfl | rfl | rfl <;> exact ⟨rfl, rfl, rfl⟩
  simp [lettered?, hpad, hfield, hothers]

theorem directive?_marked {name : List Char} (h : (name, items) ∈ markedDirectives) (more : List Char) :
    directive? (name ++ more) = some (items, more) := by
  simp only [markedDirectives, List.mem_cons, Prod.mk.injEq, List.not_mem_nil, or_false] at h
  rcases h with ⟨rfl, rfl⟩ | ⟨rfl, rfl⟩ | ⟨rfl, rfl⟩ | ⟨rfl, rfl⟩ | ⟨rfl, rfl⟩ | ⟨rfl, rfl⟩ | ⟨rfl, rfl⟩ | ⟨rfl, rfl⟩ |
    ⟨rfl, rfl⟩ | ⟨rfl, rfl⟩ | ⟨rfl, rfl⟩ <;>
    rfl

/-- A directive by a letter has the form of no other one, since it does not begin with a mark. -/
theorem directive?_of_lettered (h : lettered? cs = some (items, rest)) : directive? cs = some (items, rest) := by
  unfold directive?
  split
  all_goals
    first
    | exact h
    | rw [lettered?_of_mark (by decide)] at h
      cases h

/-- What any directive is read from; just `#z` is the one for an offset in any form. -/
theorem exists_of_directive? (h : directive? cs = some (items, rest)) :
    ∃ name, cs = name ++ rest ∧ (∀ more, directive? (name ++ more) = some (items, more)) ∧
      (.anyOffset ∈ items → name = ['#', 'z']) := by
  obtain ⟨name, hmarked, rfl⟩ | hlettered := directive?_cases h
  · have hany : ∀ p ∈ markedDirectives, .anyOffset ∈ p.2 → p.1 = ['#', 'z'] := by simp [markedDirectives]
    exact ⟨name, rfl, directive?_marked hmarked, hany _ hmarked⟩
  · obtain ⟨name, rfl, hname, hnot⟩ := exists_of_lettered? hlettered
    exact ⟨name, rfl, fun more => directive?_of_lettered (hname more), fun hmem => absurd hmem hnot⟩

/-! ### Layouts one after the other -/

theorem parse?_literal {c : Char} (hc : c ≠ '%') (r : List Char) :
    parse? (c :: r) = (parse? r).map (.literal c :: ·) := by
  rw [parse?]
  exact hc

theorem parse?_directive (h : directive? cs = some (items, rest)) :
    parse? ('%' :: cs) = (parse? rest).map (items ++ ·) := by
  rw [parse?]
  split
  · next hread =>
    rw [h] at hread
    cases hread
    rfl
  · next hnone =>
    rw [h] at hnone
    cases hnone

/-- **A layout is read up to where another one begins.** -/
theorem parse?_append (h : parse? cs = some items) (more : List Char) :
    parse? (cs ++ more) = (parse? more).map (items ++ ·) := by
  fun_induction parse? cs generalizing items with
  | case1 =>
    cases h
    simp
  | case2 r front rest hfront ih =>
    obtain ⟨back, hback, rfl⟩ := Option.map_eq_some_iff.mp h
    obtain ⟨name, rfl, hname, -⟩ := exists_of_directive? hfront
    rw [List.cons_append, List.append_assoc, parse?_directive (hname _), ih hback, Option.map_map]
    exact Option.map_congr fun _ _ => (List.append_assoc ..).symm
  | case3 => cases h
  | case4 c r hc ih =>
    obtain ⟨back, hback, rfl⟩ := Option.map_eq_some_iff.mp h
    rw [List.cons_append, parse?_literal hc, ih hback, Option.map_map]
    rfl

/-! ### The directive for an offset in any form -/

/-- The directive for an offset in any form stands in a layout: what comes before it is a layout of its own. -/
def AsksAnyOffset (cs : List Char) : Prop :=
  ∃ before items after, cs = before ++ '%' :: '#' :: 'z' :: after ∧ parse? before = some items

/-- **The directive among the items** is the directive in the layout. -/
theorem anyOffset_mem_iff (h : parse? cs = some items) : .anyOffset ∈ items ↔ AsksAnyOffset cs := by
  constructor
  · intro hmem
    fun_induction parse? cs generalizing items with
    | case1 =>
      cases h
      cases hmem
    | case2 r front rest hfront ih =>
      obtain ⟨back, hback, rfl⟩ := Option.map_eq_some_iff.mp h
      obtain ⟨name, rfl, hname, hmark⟩ := exists_of_directive? hfront
      rcases List.mem_append.mp hmem with hmem | hmem
      · rw [hmark hmem]
        exact ⟨[], [], rest, rfl, by rw [parse?]⟩
      · obtain ⟨before, found, after, rfl, hbefore⟩ := ih hback hmem
        refine ⟨'%' :: (name ++ before), front ++ found, after, by simp, ?_⟩
        rw [parse?_directive (hname before), hbefore]
        rfl
    | case3 => cases h
    | case4 c r hc ih =>
      obtain ⟨back, hback, rfl⟩ := Option.map_eq_some_iff.mp h
      have hback' : .anyOffset ∈ back := (List.mem_cons.mp hmem).resolve_left fun heq => nomatch heq
      obtain ⟨before, found, after, rfl, hbefore⟩ := ih hback hback'
      refine ⟨c :: before, .literal c :: found, after, rfl, ?_⟩
      rw [parse?_literal hc, hbefore]
      rfl
  · rintro ⟨before, found, after, rfl, hbefore⟩
    rw [parse?_append hbefore] at h
    obtain ⟨back, hback, rfl⟩ := Option.map_eq_some_iff.mp h
    have hdirective : directive? ('#' :: 'z' :: after) = some ([.anyOffset], after) := rfl
    rw [parse?_directive hdirective] at hback
    obtain ⟨others, -, rfl⟩ := Option.map_eq_some_iff.mp hback
    simp

end Layout

/-! ### Writing -/

theorem Item.write?_eq_none_iff {item : Item} {t : Timestamp} : item.write? t = none ↔ item = .anyOffset := by
  cases item <;> simp [Item.write?]

/-- What an item puts down for a timestamp, nothing where it cannot be written. -/
def Item.text (item : Item) (t : Timestamp) : String := (item.write? t).getD ""

namespace Layout

variable {items : List Item} {t : Timestamp}

theorem write?_of_notMem (h : .anyOffset ∉ items) : write? items t = some (String.join (items.map (·.text t))) := by
  have hall : items.mapM (fun item => item.write? t) = some (items.map (·.text t)) := by
    induction items with
    | nil => rfl
    | cons item items ih =>
      obtain ⟨hitem, hitems⟩ := not_or.mp (mt List.mem_cons.mpr h)
      obtain ⟨s, hs⟩ := Option.ne_none_iff_exists'.mp (mt (Item.write?_eq_none_iff (t := t)).mp (Ne.symm hitem))
      simp [List.mapM_cons, ih hitems, hs, Item.text]
  rw [write?, hall]
  rfl

theorem write?_of_mem (h : .anyOffset ∈ items) : write? items t = none := by
  have hnone : items.mapM (fun item => item.write? t) = none := by
    induction items with
    | nil => cases h
    | cons item items ih =>
      rcases List.mem_cons.mp h with rfl | hitems
      · rfl
      · simp [List.mapM_cons, ih hitems]
  rw [write?, hnone]
  rfl

end Layout

end Time

open Time

/-! ### Valid configurations -/

/-- **Times of a valid configuration.** Its layout has items, and each time is written by them, one after the other:
exactly unless the directive for an offset in any form stands in the layout. Where it does, no time at all is written by
the layout, and the form of RFC 3339 takes its place. -/
theorem Config.timeText_of_validate {c : Config} (hc : c.validate = .ok ()) :
    ∃ items, Layout.parse? c.timeFormat.toList = some items ∧ ∀ t : Timestamp,
      ((∃ text, t.format? c.timeFormat = some text) ↔ ¬ Layout.AsksAnyOffset c.timeFormat.toList) ∧
      (¬ Layout.AsksAnyOffset c.timeFormat.toList →
        timeText c.timeFormat t = String.join (items.map (·.text t))) ∧
      (Layout.AsksAnyOffset c.timeFormat.toList → timeText c.timeFormat t = t.rfc3339 false) := by
  obtain ⟨items, hitems⟩ := (Config.validate_eq_ok_iff.mp hc).timeFormat
  refine ⟨items, hitems, fun t => ?_⟩
  have hformat : t.format? c.timeFormat = Layout.write? items t := by
    rw [Timestamp.format?, hitems, Option.bind_some]
  by_cases hasks : Layout.AsksAnyOffset c.timeFormat.toList
  · have hnone := Layout.write?_of_mem (t := t) ((Layout.anyOffset_mem_iff hitems).mpr hasks)
    simp [timeText, hformat, hnone, hasks]
  · have hsome := Layout.write?_of_notMem (t := t) (mt (Layout.anyOffset_mem_iff hitems).mp hasks)
    simp [timeText, hformat, hsome, hasks]

/-- A layout of a date and a percent sign of its own, `#z` coming after that one. -/
theorem Config.timeText_of_validate_percent :
    let c : Config := { timeFormat := "%F %%#z" }
    let t : Timestamp := ⟨1704067200, 0, 3600⟩
    c.validate = .ok () ∧ ¬ Layout.AsksAnyOffset c.timeFormat.toList ∧ timeText c.timeFormat t = "2024-01-01 %#z" := by
  intro c t
  have hc : c.validate = .ok () := by decide +kernel
  have hread : Layout.parse? c.timeFormat.toList = some [.number .year .zero, .literal '-', .number .month .zero,
      .literal '-', .number .day .zero, .literal ' ', .literal '%', .literal '#', .literal 'z'] := by decide +kernel
  have hnone : ¬ Layout.AsksAnyOffset c.timeFormat.toList := mt (Layout.anyOffset_mem_iff hread).mpr (by decide)
  obtain ⟨items, hitems, hall⟩ := Config.timeText_of_validate hc
  cases hread.symm.trans hitems
  exact ⟨hc, hnone, ((hall t).2.1 hnone).trans (by decide +kernel)⟩

/-- A configuration is valid with a layout by which no time is written. -/
theorem Config.validate_layout_unwritable :
    let c : Config := { timeFormat := "%#z" }
    let t : Timestamp := ⟨1704067200, 0, 0⟩
    c.validate = .ok () ∧ t.format? c.timeFormat = none ∧
      timeText c.timeFormat t = "2024-01-01T00:00:00+00:00" := by
  decide +kernel

end LegibleLog
