import LegibleLog.Proofs.Ascii
import LegibleLog.Proofs.Unchanged

/-!
# Texts without line feeds

* `Text.Unbroken s` — the text has no line feed; `Text.unbroken_iff_encode` tells it from the bytes;
* `Part.Unbroken` — nothing that a part shows has one;
* `Options.unbroken_partsText_iff` — what is put around the parts of a line never has one;
* `Options.ShowsUnbroken` — nothing that is shown of an event has one; `unbroken_partsAfter_iff`: values that are left
  out do not matter, since the line before has shown them.
-/

namespace LegibleLog

/-! ### Texts -/

namespace Text

/-- A text without line feeds. -/
def Unbroken (s : String) : Prop := '\n' ∉ s.toList

instance (s : String) : Decidable (Unbroken s) := by
  unfold Unbroken
  infer_instance

@[simp]
theorem unbroken_append_iff {s t : String} : Unbroken (s ++ t) ↔ Unbroken s ∧ Unbroken t := by
  simp [Unbroken]

theorem unbroken_iff {s : String} : Unbroken s ↔ ∀ c ∈ s.toList, c ≠ '\n' :=
  ⟨fun h _ hc heq => h (heq ▸ hc), fun h hmem => h _ hmem rfl⟩

/-- The characters of texts with a separator between them are those of the texts and of the separator. -/
theorem forall_mem_intercalate_iff {p : Char → Prop} {separator : String} (hsep : ∀ c ∈ separator.toList, p c)
    (texts : List String) :
    (∀ c ∈ (separator.intercalate texts).toList, p c) ↔ ∀ text ∈ texts, ∀ c ∈ text.toList, p c := by
  induction texts with
  | nil => simp
  | cons text rest ih =>
    cases rest with
    | nil => simp
    | cons next rest =>
      rw [String.intercalate_cons_cons, String.toList_append, String.toList_append, List.forall_mem_append,
        List.forall_mem_append, ih]
      rw [List.forall_mem_cons (a := text)]
      exact and_congr_left fun _ => and_iff_left hsep

theorem unbroken_intercalate_iff {separator : String} (hsep : Unbroken separator) (texts : List String) :
    Unbroken (separator.intercalate texts) ↔ ∀ text ∈ texts, Unbroken text := by
  simp only [unbroken_iff, forall_mem_intercalate_iff (unbroken_iff.mp hsep)]

theorem isDigit_of_mem_toString {n : Nat} {c : Char} (h : c ∈ (toString n).toList) : c.isDigit = true := by
  rw [Nat.toString_eq_repr, Nat.toList_repr] at h
  exact Nat.isDigit_of_mem_toDigits (by decide) (by decide) h

@[simp]
theorem unbroken_toString (n : Nat) : Unbroken (toString n) :=
  fun h => absurd (isDigit_of_mem_toString h) (by decide)

/-- A text has no line feed exactly when its bytes have none. -/
theorem unbroken_iff_encode {s : String} : Unbroken s ↔ lineFeed ∉ encode s := by
  rw [encode_eq]
  exact not_congr (toUInt8_mem_encodeChars_iff (by decide)).symm

end Text

open Text

/-! ### Parts -/

namespace Part

/-- What a part shows. -/
def texts : Part → List String
  | .time text => [text]
  | .level _ label => [label]
  | .message _ text => [text]
  | .key name => [name]
  | .field name value => [name, value]

/-- A part that shows no line feed. -/
def Unbroken (p : Part) : Prop := ∀ text ∈ p.texts, Text.Unbroken text

instance (p : Part) : Decidable p.Unbroken := by
  unfold Unbroken
  infer_instance

end Part

theorem Style.unbroken_paint_iff (s : Style) (enabled : Bool) (text : String) :
    Unbroken (s.paint enabled text) ↔ Unbroken text := by
  unfold Style.paint
  split
  · have hcodes : Unbroken (";".intercalate (s.codes.map toString)) := by
      refine (unbroken_intercalate_iff (by decide) _).mpr fun text htext => ?_
      obtain ⟨n, -, rfl⟩ := List.mem_map.mp htext
      exact unbroken_toString n
    have hstart : Unbroken s.start := by
      unfold Style.start
      rw [unbroken_append_iff, unbroken_append_iff]
      exact ⟨⟨by decide, hcodes⟩, by decide⟩
    have hstop : Unbroken Style.stop := by decide
    simp [unbroken_append_iff, hstart, hstop]
  · exact Iff.rfl

namespace Options

variable {o : Options}

theorem unbroken_partText_iff (p : Part) : Unbroken (o.partText p) ↔ p.Unbroken := by
  have hbar : Unbroken "|" := by decide
  have hequals : Unbroken "=" := by decide
  cases p <;>
    simp [partText, painted, Part.Unbroken, Part.texts, unbroken_append_iff, Style.unbroken_paint_iff, hbar, hequals]

/-- Only what parts show can break a line: what is put around and between them has no line feed. -/
theorem unbroken_partsText_iff (parts : List Part) : Unbroken (o.partsText parts) ↔ ∀ p ∈ parts, p.Unbroken := by
  unfold partsText
  rw [unbroken_intercalate_iff (by decide), List.forall_mem_map]
  exact forall₂_congr fun p _ => unbroken_partText_iff p

/-! ### Events -/

/-- Nothing that is shown of an event has a line feed. -/
def ShowsUnbroken (o : Options) (e : Event) : Prop := ∀ p ∈ o.parts false Fields.empty e, p.Unbroken

instance (o : Options) (e : Event) : Decidable (o.ShowsUnbroken e) := by
  unfold ShowsUnbroken
  infer_instance

theorem showsUnbroken_iff (e : Event) :
    o.ShowsUnbroken e ↔ (∀ p ∈ o.roleParts e, p.Unbroken) ∧
      ∀ field ∈ o.shownFields e.fields, (Part.field field.1 (o.shownValue field.2)).Unbroken := by
  unfold ShowsUnbroken parts
  rw [List.forall_mem_append, List.forall_mem_map]
  rfl

/-- A value is left out only when the line before has shown it. -/
theorem unbroken_partAfter_iff {before : Option (Shape × Event)} (hbefore : ∀ b ∈ before, o.ShowsUnbroken b.2)
    (f : Format) {field : String × String} (hshow : o.showsField field.1 = true) :
    (o.partAfter before f field).Unbroken ↔ (Part.field field.1 (o.shownValue field.2)).Unbroken := by
  unfold partAfter
  split
  · next hrep =>
    obtain ⟨-, -, -, b, hb, -, hvalue⟩ := hrep
    have hshown := ((showsUnbroken_iff b.2).mp (hbefore b hb)).2 field (mem_shownFields_iff.mpr ⟨hvalue, hshow⟩)
    refine iff_of_true (fun text htext => hshown text ?_) hshown
    rw [Part.texts, List.mem_singleton] at htext
    rw [Part.texts, htext]
    exact List.mem_cons_self
  · exact Iff.rfl

/-- **Values that are left out.** After an event that shows no line feed, leaving values out makes no difference. -/
theorem unbroken_partsAfter_iff {before : Option (Shape × Event)} (hbefore : ∀ b ∈ before, o.ShowsUnbroken b.2)
    (shape : Shape) (e : Event) : (∀ p ∈ o.partsAfter before shape e, p.Unbroken) ↔ o.ShowsUnbroken e := by
  rw [showsUnbroken_iff, partsAfter, List.forall_mem_append, List.forall_mem_map]
  refine and_congr_right fun _ => forall₂_congr fun field hfield => ?_
  exact unbroken_partAfter_iff hbefore _ (mem_shownFields_iff.mp hfield).2

end Options

end LegibleLog
