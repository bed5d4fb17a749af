import LegibleLog.Config
import LegibleLog.Proofs.Fields
import Mathlib.Data.List.Forall2

/-!
# Palettes by names

* `Attribute.Numbered` — the names of attributes, with their numbers;
* `Attribute.ofName?_eq_some_iff` — an attribute is found by its name, and no two have the same;
* `Style.ofNames_eq_ok_iff` — the numbers of a style are those of the names it is made of, one by one;
* `Palette.names` — all names that are given for a palette, in the order of the entries;
* `Palette.compile_by_names` — what comes of them: a style for each entry, or the first name that is unknown.
-/

namespace LegibleLog

/-! ### Attributes by name -/

@[simp]
theorem Color.mem_all (c : Color) : c ∈ all := by cases c <;> decide

namespace Attribute

variable {a : Attribute} {name : String} {code : Nat}

/-- The names of attributes with their numbers: four attributes, and the eight colors, as they are or behind one of three
prefixes. -/
inductive Numbered : String → Nat → Prop where
  | bold : Numbered "bold" 1
  | faint : Numbered "faint" 2
  | italic : Numbered "italic" 3
  | underline : Numbered "underline" 4
  | plain (c : Color) : Numbered c.name (30 + c.index)
  | bright (c : Color) : Numbered ("hi_" ++ c.name) (90 + c.index)
  | background (c : Color) : Numbered ("bg_" ++ c.name) (40 + c.index)
  | brightBackground (c : Color) : Numbered ("bg_hi_" ++ c.name) (100 + c.index)

theorem numbered_name (a : Attribute) : Numbered a.name a.code := by
  cases a with
  | bold => exact .bold
  | faint => exact .faint
  | italic => exact .italic
  | underline => exact .underline
  | foreground bright c =>
    cases bright with
    | false => simpa [Attribute.name, Attribute.code] using Numbered.plain c
    | true => exact .bright c
  | background bright c =>
    cases bright with
    | false => exact .background c
    | true => exact .brightBackground c

theorem Numbered.exists_attribute (h : Numbered name code) : ∃ a : Attribute, a.name = name ∧ a.code = code := by
  cases h with
  | bold => exact ⟨.bold, rfl, rfl⟩
  | faint => exact ⟨.faint, rfl, rfl⟩
  | italic => exact ⟨.italic, rfl, rfl⟩
  | underline => exact ⟨.underline, rfl, rfl⟩
  | plain c => exact ⟨.foreground false c, String.empty_append, rfl⟩
  | bright c => exact ⟨.foreground true c, rfl, rfl⟩
  | background c => exact ⟨.background false c, rfl, rfl⟩
  | brightBackground c => exact ⟨.background true c, rfl, rfl⟩

@[simp]
theorem mem_all (a : Attribute) : a ∈ all := by
  cases a with
  | foreground bright c => cases bright <;> simp [all]
  | background bright c => cases bright <;> simp [all]
  | _ => simp [all]

/-- An attribute is found by its name, which no other attribute has. -/
theorem ofName?_eq_some_iff : ofName? name = some a ↔ a.name = folded name := by
  have hnames : (all.map Attribute.name).Nodup := by decide
  rw [ofName?, find?_eq_some_iff_of_nodup hnames, and_iff_right a.mem_all]

theorem numbered_folded_iff : Numbered (folded name) code ↔ ∃ a, ofName? name = some a ∧ a.code = code := by
  simp only [ofName?_eq_some_iff]
  constructor
  · exact Numbered.exists_attribute
  · rintro ⟨a, hname, rfl⟩
    rw [← hname]
    exact a.numbered_name

/-- A name that an attribute has, apart from blanks around it, the case of its letters, and hyphens for underscores. -/
def Known (name : String) : Prop := ∃ code, Numbered (folded name) code

theorem isNone_ofName?_iff : (ofName? name).isNone = true ↔ ¬ Known name := by
  rw [Option.isNone_iff_eq_none, Known]
  simp only [numbered_folded_iff]
  cases ofName? name <;> simp

end Attribute

/-! ### Styles by names -/

namespace Style

theorem codes_inj {s t : Style} : s.codes = t.codes ↔ s = t := by
  cases s
  cases t
  rw [mk.injEq]

variable {names : List String} {codes : List Nat} {style : Style} {unknown : UnknownAttribute}

theorem firstUnknown?_eq_none_iff : firstUnknown? names = none ↔ ∀ name ∈ names, Attribute.Known name := by
  simp only [firstUnknown?, Option.map_eq_none_iff, List.find?_eq_none, Attribute.isNone_ofName?_iff, not_not]

theorem firstUnknown?_eq_some_iff : firstUnknown? names = some unknown ↔
    ∃ before after, names = before ++ unknown.name :: after ∧ (∀ name ∈ before, Attribute.Known name) ∧
      ¬ Attribute.Known unknown.name := by
  have hfind : firstUnknown? names = some unknown ↔
      (names.find? fun name => (Attribute.ofName? name).isNone) = some unknown.name := by
    rw [firstUnknown?, Option.map_eq_some_iff]
    constructor
    · rintro ⟨name, hname, rfl⟩
      exact hname
    · intro h
      exact ⟨unknown.name, h, rfl⟩
  rw [hfind, List.find?_eq_some_iff_append]
  simp only [Bool.not_eq_true', ← Bool.not_eq_true, Attribute.isNone_ofName?_iff, not_not]
  constructor
  · rintro ⟨hunknown, before, after, hnames, hbefore⟩
    exact ⟨before, after, hnames, hbefore, hunknown⟩
  · rintro ⟨before, after, hnames, hbefore, hunknown⟩
    exact ⟨hunknown, before, after, hnames, hbefore⟩

/-- A style has the numbers of some names, one by one, exactly when all of them are known and it is made of them. -/
theorem forall₂_numbered_iff :
    List.Forall₂ (fun name code => Attribute.Numbered (Attribute.folded name) code) names codes ↔
      (∀ name ∈ names, Attribute.Known name) ∧ codes = (ofKnown names).codes := by
  induction names generalizing codes with
  | nil =>
    rw [List.forall₂_nil_left_iff]
    simp [ofKnown, ofAttributes]
  | cons name names ih =>
    rw [List.forall₂_cons_left_iff, List.forall_mem_cons]
    simp only [ih]
    constructor
    · rintro ⟨code, _, hcode, ⟨hknown, rfl⟩, rfl⟩
      obtain ⟨a, ha, rfl⟩ := Attribute.numbered_folded_iff.mp hcode
      exact ⟨⟨⟨a.code, hcode⟩, hknown⟩, by simp [ofKnown, ofAttributes, ha]⟩
    · rintro ⟨⟨⟨code, hcode⟩, hknown⟩, hcodes⟩
      obtain ⟨a, ha, rfl⟩ := Attribute.numbered_folded_iff.mp hcode
      exact ⟨a.code, _, hcode, ⟨hknown, rfl⟩, by simp [hcodes, ofKnown, ofAttributes, ha]⟩

/-- **Styles by names.** The style of some names has their numbers, one by one, and the first unknown name is
reported. -/
theorem ofNames_eq_ok_iff : ofNames names = .ok style ↔
    List.Forall₂ (fun name code => Attribute.Numbered (Attribute.folded name) code) names style.codes := by
  rw [forall₂_numbered_iff, codes_inj, ← firstUnknown?_eq_none_iff, ofNames]
  split
  · next e he => simp [he]
  · next hnone => rw [and_iff_right hnone, Except.ok.injEq, eq_comm]

theorem ofNames_eq_error_iff : ofNames names = .error unknown ↔
    ∃ before after, names = before ++ unknown.name :: after ∧ (∀ name ∈ before, Attribute.Known name) ∧
      ¬ Attribute.Known unknown.name := by
  rw [← firstUnknown?_eq_some_iff, ofNames]
  split
  · next e he => rw [he, Except.error.injEq, Option.some.injEq]
  · next hnone => simp [hnone]

end Style

/-! ### Palettes -/

@[simp]
theorem PaletteEntry.mem_all (e : PaletteEntry) : e ∈ all := by cases e <;> decide

namespace Palette

variable {overrides : Palette (Option (List String))} {styles : Palette Style} {unknown : UnknownAttribute}

theorem eq_ofFn_iff {α : Type} {p : Palette α} {f : PaletteEntry → α} : p = ofFn f ↔ ∀ e, p.get e = f e := by
  constructor
  · rintro rfl e
    exact get_ofFn f e
  · intro h
    rw [← ofFn_get p, funext h]

/-- All names that are given, in the order of the entries. -/
def names (overrides : Palette (Option (List String))) : List String :=
  PaletteEntry.all.flatMap fun e => (overrides.get e).getD []

theorem forall_mem_names_iff {p : String → Prop} :
    (∀ name ∈ overrides.names, p name) ↔ ∀ e, ∀ names ∈ overrides.get e, ∀ name ∈ names, p name := by
  simp only [names, List.mem_flatMap]
  constructor
  · intro h e names hnames name hname
    exact h name ⟨e, e.mem_all, by rwa [Option.mem_def.mp hnames]⟩
  · rintro h name ⟨e, -, hname⟩
    cases hnames : overrides.get e with
    | none => simp [hnames] at hname
    | some names => exact h e names hnames name (by simpa [hnames] using hname)

/-- The first unknown name of the first entry that has one is the first of all names. -/
theorem firstUnknown?_eq (overrides : Palette (Option (List String))) :
    overrides.firstUnknown? = Style.firstUnknown? overrides.names := by
  have hentry : ∀ e, (overrides.get e).bind Style.firstUnknown? =
      Style.firstUnknown? ((overrides.get e).getD []) := by
    intro e
    cases overrides.get e <;> rfl
  rw [names, Style.firstUnknown?, List.find?_flatMap, List.map_findSome?, firstUnknown?]
  simp only [hentry]
  rfl

theorem compile_eq_error_iff : compile overrides = .error unknown ↔ overrides.firstUnknown? = some unknown := by
  unfold compile
  split
  · next e he => rw [he, Except.error.injEq, Option.some.injEq]
  · next hnone => simp [hnone]

/-- With no name unknown, each entry that is given has the style of its names, and the others stay. -/
theorem compile_eq_ok_iff : compile overrides = .ok styles ↔
    overrides.firstUnknown? = none ∧ ∀ e, styles.get e = ((overrides.get e).map Style.ofKnown).getD (standard.get e) := by
  unfold compile
  split
  · next e he => simp [he]
  · next hnone =>
    rw [Except.ok.injEq, eq_comm, eq_ofFn_iff, and_iff_right hnone]
    refine forall_congr' fun e => ?_
    cases overrides.get e <;> rfl

/-- What an entry has: the numbers of the names that are given for it, one by one, or else the usual style. -/
def Chosen (usual : Style) : Option (List String) → Style → Prop
  | some names, style =>
    List.Forall₂ (fun name code => Attribute.Numbered (Attribute.folded name) code) names style.codes
  | none, style => style = usual

theorem chosen_iff {usual style : Style} {given : Option (List String)} : Chosen usual given style ↔
    (∀ names ∈ given, ∀ name ∈ names, Attribute.Known name) ∧ style = (given.map Style.ofKnown).getD usual := by
  cases given with
  | none => simp [Chosen]
  | some names =>
    rw [Chosen, Style.forall₂_numbered_iff, Style.codes_inj]
    simp

/-- **Palettes by names.** They are accepted exactly when every name that is given is known, and then each entry has its
own names' numbers, in their order, or else its usual style; otherwise the first unknown name is reported, in the order
of the entries and of the names of each. -/
theorem compile_by_names (overrides : Palette (Option (List String))) :
    ((∃ styles, compile overrides = .ok styles) ↔
        ∀ e, ∀ names ∈ overrides.get e, ∀ name ∈ names, Attribute.Known name) ∧
      (∀ styles, compile overrides = .ok styles ↔
        ∀ e, Chosen (standard.get e) (overrides.get e) (styles.get e)) ∧
      ∀ unknown, compile overrides = .error unknown ↔
        ∃ before after, overrides.names = before ++ unknown.name :: after ∧
          (∀ name ∈ before, Attribute.Known name) ∧ ¬ Attribute.Known unknown.name := by
  refine ⟨?_, fun styles => ?_, fun unknown => ?_⟩
  · rw [← forall_mem_names_iff, ← Style.firstUnknown?_eq_none_iff, ← firstUnknown?_eq]
    simp only [compile_eq_ok_iff, exists_and_left, ← eq_ofFn_iff, exists_eq, and_true]
  · simp only [chosen_iff, forall_and]
    rw [compile_eq_ok_iff, firstUnknown?_eq, Style.firstUnknown?_eq_none_iff, forall_mem_names_iff]
  · rw [compile_eq_error_iff, firstUnknown?_eq, Style.firstUnknown?_eq_some_iff]

/-- The entry for information comes before the one for fatal errors. -/
example :
    let given : PaletteEntry → Option (List String)
      | .fatalLevel => some ["purple"]
      | .infoLevel => some [" Hi-Red", "Chartreuse", "mauve"]
      | _ => none
    (Config.styles { palette := ofFn given }).mapError ConfigFault.message =
      .error "palette: unknown color attribute 'Chartreuse'" := by
  rfl

end Palette

end LegibleLog
