import LegibleLog.Proofs.ControlSequences
import LegibleLog.Proofs.Unbroken

/-!
# Colours are presentation

* `Csi.StripsTo painted plain` — taking the control sequences out of `painted` leaves `plain`, whatever follows; this is
  kept by putting texts one after the other;
* `Text.Plain s` — the text has no escape byte; `Style.stripsTo_paint` says that painting a plain text is undone;
* `Options.renderings_on_off` — rendered with and without colours, events leave the same fields and the same texts.
-/

namespace LegibleLog

/-! ### Taking out what painting puts in -/

namespace Csi

variable {painted plain painted' plain' bytes : List UInt8}

/-- Taking the control sequences out of `painted` leaves `plain`, whatever follows. -/
def StripsTo (painted plain : List UInt8) : Prop := ∀ rest, strip (painted ++ rest) = plain ++ strip rest

theorem StripsTo.append (h : StripsTo painted plain) (h' : StripsTo painted' plain') :
    StripsTo (painted ++ painted') (plain ++ plain') := by
  intro rest
  rw [List.append_assoc, h, h', List.append_assoc]

theorem StripsTo.strip_eq (h : StripsTo painted plain) : strip painted = plain := by
  have hnil := h []
  rwa [List.append_nil, strip_nil, List.append_nil] at hnil

theorem stripsTo_of_notMem (h : escape ∉ bytes) : StripsTo bytes bytes := strip_append_of_notMem h

theorem stripsTo_of_isColor (h : IsColor bytes) : StripsTo bytes [] :=
  fun rest => strip_of_sequence (afterSequence?_color_append h rest)

end Csi

/-! ### Texts without the escape byte -/

namespace Text

variable {s : String}

/-- A text without the escape byte. -/
def Plain (s : String) : Prop := Csi.escape ∉ encode s

instance (s : String) : Decidable (Plain s) := by
  unfold Plain
  infer_instance

/-- In UTF-8 the escape byte stands for nothing but the escape character. -/
theorem plain_iff : Plain s ↔ '\x1b' ∉ s.toList := by
  rw [Plain, encode_eq]
  exact not_congr (toUInt8_mem_encodeChars_iff (a := '\x1b') (by decide))

theorem ofNat_ne_escape {n : Nat} (hn : 0x1B < n) : Char.ofNat n ≠ '\x1b' := by
  intro heq
  by_cases hvalid : n.isValidChar
  · have hnat : (Char.ofNat n).toNat = n := by
      rw [Char.ofNat, dif_pos hvalid]
      rfl
    have hescape : '\x1b'.toNat = 0x1B := rfl
    rw [heq] at hnat
    omega
  · rw [Char.ofNat, dif_neg hvalid] at heq
    exact absurd heq (by decide)

/-- Upper case brings no escape character about: the letters beyond ASCII have letters for it. -/
theorem escape_notMem_upper {c : Char} (h : c ≠ '\x1b') : '\x1b' ∉ upper c := by
  have hascii : ∀ n < 0x80, Char.ofNat n ≠ '\x1b' → (Char.ofNat n).toUpper ≠ '\x1b' := by decide
  have hspecial : ∀ entry ∈ upperSpecial, '\x1b' ∉ entry.2.map Char.ofNat := by decide +kernel
  have hruns : ∀ run ∈ upperRuns, (0x1B : Int) < run.first + run.distance := by decide +kernel
  fun_cases upper c with
  | case1 n hn =>
    have hupper := hascii c.toNat hn
    rw [Char.ofNat_toNat] at hupper
    exact fun hmem => hupper h (List.mem_singleton.mp hmem).symm
  | case2 n hn first expansion hfind => exact hspecial _ (List.mem_of_find?_eq_some hfind)
  | case3 n hn hfind run hrun =>
    have hcovers := List.find?_some hrun
    have hfirst := hruns run (List.mem_of_find?_eq_some hrun)
    simp only [UpperRun.covers, Bool.and_eq_true, decide_eq_true_eq] at hcovers
    exact fun hmem => ofNat_ne_escape (by omega) (List.mem_singleton.mp hmem).symm
  | case4 n hn hfind hrun => exact fun hmem => h (List.mem_singleton.mp hmem).symm

theorem plain_levelLabel (h : Plain s) : Plain (levelLabel s) := by
  rw [plain_iff] at h ⊢
  rw [levelLabel, String.toList_ofList]
  intro hmem
  obtain ⟨c, hc, hupper⟩ := List.mem_flatMap.mp (List.mem_of_mem_take hmem)
  exact escape_notMem_upper (fun heq => h (heq ▸ hc)) hupper

theorem plain_truncateText (n : Nat) (h : Plain s) : Plain (truncateText n s) := by
  rw [plain_iff] at h ⊢
  unfold truncateText
  split
  · exact h
  · rw [String.toList_append, String.toList_ofList, List.mem_append, not_or]
    exact ⟨fun hmem => h (List.mem_of_mem_take hmem), by decide⟩

end Text

open Text

/-! ### Painted texts -/

/-- A text that is `painted` reads as the text `plain` once control sequences are taken out. -/
def ReadsAs (painted plain : String) : Prop := Csi.StripsTo (encode painted) (encode plain)

section ReadsAs

variable {s t s' t' : String}

theorem Text.Plain.readsAs (h : Plain s) : ReadsAs s s := Csi.stripsTo_of_notMem h

theorem ReadsAs.append (h : ReadsAs s t) (h' : ReadsAs s' t') : ReadsAs (s ++ s') (t ++ t') := by
  unfold ReadsAs
  rw [encode_append, encode_append]
  exact Csi.StripsTo.append h h'

theorem ReadsAs.intercalate {separator : String} (hsep : Plain separator) {painted plain : List String}
    (h : List.Forall₂ ReadsAs painted plain) :
    ReadsAs (separator.intercalate painted) (separator.intercalate plain) := by
  induction h with
  | nil =>
    rw [String.intercalate_nil]
    exact Plain.readsAs (by decide)
  | cons hfirst hrest ih =>
    cases hrest with
    | nil => simpa using hfirst
    | cons hnext hrest =>
      rw [String.intercalate_cons_cons, String.intercalate_cons_cons]
      exact (hfirst.append hsep.readsAs).append ih

end ReadsAs

namespace Style

/-- The numbers of a style, with semicolons between them, are parameters of a control sequence. -/
theorem isParameter_of_mem_codes {codes : List Nat} {b : UInt8}
    (h : b ∈ encode (";".intercalate (codes.map toString))) : Csi.isParameter b = true := by
  have hchars : ∀ c ∈ (";".intercalate (codes.map toString)).toList, 0x30 ≤ c.toNat ∧ c.toNat ≤ 0x3F := by
    have hsemicolon : ∀ c ∈ ";".toList, 0x30 ≤ c.toNat ∧ c.toNat ≤ 0x3F := by simp
    refine (forall_mem_intercalate_iff hsemicolon _).mpr (List.forall_mem_map.mpr fun n _ c hc => ?_)
    have hdigit := toNat_of_isDigit (isDigit_of_mem_toString hc)
    omega
  rw [encode_eq, encodeChars, List.mem_flatMap] at h
  obtain ⟨c, hc, hb⟩ := h
  obtain ⟨hlow, hhigh⟩ := hchars c hc
  have hascii : c.toNat < 0x80 := by omega
  rw [utf8EncodeChar_of_ascii hascii, List.mem_singleton] at hb
  subst hb
  simp only [Csi.isParameter, Bool.and_eq_true, decide_eq_true_eq, UInt8.le_iff_toNat_le, toNat_toUInt8 hascii]
  exact ⟨hlow, hhigh⟩

theorem isColor_start (s : Style) : Csi.IsColor (encode s.start) := by
  refine ⟨encode (";".intercalate (s.codes.map toString)), fun b => isParameter_of_mem_codes, ?_⟩
  rw [start, encode_append, encode_append]
  rfl

theorem isColor_stop : Csi.IsColor (encode stop) := ⟨encode "0", by decide +kernel, by decide +kernel⟩

/-- **Painting is undone** by taking the control sequences out. -/
theorem readsAs_paint (s : Style) (enabled : Bool) {text : String} (h : Plain text) :
    ReadsAs (s.paint enabled text) text := by
  unfold paint
  split
  · have hstart := Csi.stripsTo_of_isColor s.isColor_start
    have hstop := Csi.stripsTo_of_isColor isColor_stop
    have hall := (hstart.append (Csi.stripsTo_of_notMem h)).append hstop
    rw [ReadsAs, encode_append, encode_append]
    simpa using hall
  · exact h.readsAs

end Style

/-! ### Lines -/

namespace Part

/-- A part that shows no escape byte. -/
def Plain (p : Part) : Prop := ∀ text ∈ p.texts, Text.Plain text

end Part

namespace Options

variable {o : Options}

/-- The options with another colour mode. -/
def withColor (o : Options) (mode : ColorMode) : Options := { o with color := mode }

theorem readsAs_painted (entry : PaletteEntry) {text : String} (h : Plain text) :
    ReadsAs ((o.withColor .on).painted entry text) ((o.withColor .off).painted entry text) :=
  Style.readsAs_paint _ _ h

theorem readsAs_partText {p : Part} (h : p.Plain) :
    ReadsAs ((o.withColor .on).partText p) ((o.withColor .off).partText p) := by
  have hbar : ReadsAs "|" "|" := Plain.readsAs (by decide)
  have hequals : ReadsAs "=" "=" := Plain.readsAs (by decide)
  cases p with
  | time text => exact readsAs_painted _ (h text List.mem_cons_self)
  | level cls label => exact (hbar.append (readsAs_painted _ (h label List.mem_cons_self))).append hbar
  | message absent text => exact readsAs_painted _ (h text List.mem_cons_self)
  | key key => exact readsAs_painted _ (h key List.mem_cons_self)
  | field key value =>
    obtain ⟨hkey, hvalue⟩ := List.forall_mem_cons.mp h
    exact ((readsAs_painted _ hkey).append hequals).append (readsAs_painted _ (hvalue value List.mem_cons_self))

theorem readsAs_partsText {parts : List Part} (h : ∀ p ∈ parts, p.Plain) :
    ReadsAs ((o.withColor .on).partsText parts) ((o.withColor .off).partsText parts) := by
  refine ReadsAs.intercalate (by decide) ?_
  induction parts with
  | nil => exact .nil
  | cons p parts ih =>
    obtain ⟨hp, hparts⟩ := List.forall_mem_cons.mp h
    exact .cons (readsAs_partText hp) (ih hparts)

/-! ### Events -/

/-- An event whose texts have no escape byte: its time as it is written, its level, its message, its keys and its
values. -/
structure PlainEvent (o : Options) (e : Event) : Prop where
  time : ∀ t ∈ e.timestamp, Plain (timeText o.timeFormat t)
  level : ∀ level ∈ e.level, Plain level
  message : ∀ message ∈ e.message, Plain message
  fields : ∀ key value, e.fields.get? key = some value → Plain key ∧ Plain value

section Parts

variable {e : Event} {p : Part}

theorem plain_timePart? (h : o.PlainEvent e) (hp : p ∈ o.timePart? e) : p.Plain := by
  unfold timePart? at hp
  split at hp
  · next t ht =>
    split at hp
    · cases hp
      exact List.forall_mem_singleton.mpr (h.time t ht)
    · cases hp
  · cases hp

theorem plain_levelPart? (h : o.PlainEvent e) (hp : p ∈ o.levelPart? e) : p.Plain := by
  unfold levelPart? at hp
  split at hp
  · next level hlevel =>
    split at hp
    · cases hp
      exact List.forall_mem_singleton.mpr (plain_levelLabel (h.level level hlevel))
    · cases hp
  · cases hp

theorem plain_messagePart? (h : o.PlainEvent e) (hp : p ∈ o.messagePart? e) : p.Plain := by
  unfold messagePart? at hp
  have habsent : Plain absentMessage := by decide
  have hmessage : Plain (e.message.getD "") := by
    cases he : e.message with
    | none => exact (by decide : Plain "")
    | some message => exact h.message message he
  split at hp
  · dsimp only at hp
    split at hp
    · cases hp
      exact List.forall_mem_singleton.mpr habsent
    · cases hp
      exact List.forall_mem_singleton.mpr hmessage
  · cases hp

theorem plain_of_mem_roleParts (h : o.PlainEvent e) (hp : p ∈ o.roleParts e) : p.Plain := by
  simp only [roleParts, List.mem_append, Option.mem_toList] at hp
  rcases hp with (hp | hp) | hp
  · exact plain_timePart? h hp
  · exact plain_levelPart? h hp
  · exact plain_messagePart? h hp

theorem plain_fieldPart {unchanged : Bool} {wasThere : String × String → Bool} {field : String × String}
    (hkey : Plain field.1) (hvalue : Plain field.2) : (o.fieldPart unchanged wasThere field).Plain := by
  have hshown : Plain (o.shownValue field.2) := by
    unfold shownValue
    split
    · exact plain_truncateText _ hvalue
    · exact hvalue
  unfold fieldPart
  split
  · exact List.forall_mem_singleton.mpr hkey
  · exact List.forall_mem_cons.mpr ⟨hkey, List.forall_mem_singleton.mpr hshown⟩

/-- What an event with plain texts shows is plain, and so it is when values are left out. -/
theorem plain_of_mem_parts (h : o.PlainEvent e) {unchanged : Bool} {earlier : Fields}
    (hp : p ∈ o.parts unchanged earlier e) : p.Plain := by
  rcases List.mem_append.mp hp with hp | hp
  · exact plain_of_mem_roleParts h hp
  · obtain ⟨field, hfield, rfl⟩ := List.mem_map.mp hp
    obtain ⟨hkey, hvalue⟩ := h.fields field.1 field.2 (mem_shownFields_iff.mp hfield).1
    exact plain_fieldPart hkey hvalue

end Parts

/-! ### Events one after the other -/

/-- A rendering with colours against one without: the same fields are held, and without its control sequences the line
is the same. -/
def SameWithoutColors (colored plain : String × Fields) : Prop :=
  colored.2 = plain.2 ∧ Csi.strip (encode colored.1) = encode plain.1

theorem render_on_off {e : Event} (h : o.PlainEvent e) (held : Fields) (unchanged : Bool) :
    SameWithoutColors ((o.withColor .on).render held unchanged e) ((o.withColor .off).render held unchanged e) := by
  have hparts : ∀ p ∈ o.parts unchanged held e, p.Plain := fun _ => plain_of_mem_parts h
  exact ⟨rfl, (readsAs_partsText hparts).strip_eq⟩

/-- **Colours are presentation.** -/
theorem renderings_on_off (o : Options) (held : Fields) (steps : List (Bool × Event))
    (h : ∀ step ∈ steps, o.PlainEvent step.2) :
    List.Forall₂ SameWithoutColors ((o.withColor .on).renderings held steps)
      ((o.withColor .off).renderings held steps) := by
  induction steps generalizing held with
  | nil => exact .nil
  | cons step rest ih =>
    obtain ⟨hstep, hrest⟩ := List.forall_mem_cons.mp h
    exact .cons (render_on_off hstep held step.1) (ih _ hrest)

/-- An event twice, the second time with leave to leave out the value of its field. -/
theorem renderings_on_off_twice :
    let e : Event := ⟨none, some "m", some "info", Fields.ofList [("k", "v")], ⟨none, some "msg", some "level"⟩⟩
    let steps := [(false, e), (true, e)]
    let colored := (({} : Options).withColor .on).renderings Fields.empty steps
    let plain := (({} : Options).withColor .off).renderings Fields.empty steps
    (∀ step ∈ steps, ({} : Options).PlainEvent step.2) ∧ List.Forall₂ SameWithoutColors colored plain ∧
      colored.head?.map (·.1) =
        some "|\x1b[36mINFO\x1b[0m| \x1b[97mm\x1b[0m \x1b[32mk\x1b[0m=\x1b[97mv\x1b[0m" ∧
      plain.head?.map (·.1) = some "|INFO| m k=v" := by
  intro e steps colored plain
  have he : ({} : Options).PlainEvent e := by
    refine ⟨fun t ht => (nomatch ht), ?_, ?_, fun key value h => ?_⟩
    · rintro _ ⟨⟩
      decide
    · rintro _ ⟨⟩
      decide
    · rw [← Fields.mem_entries_iff] at h
      have hentries : e.fields.entries = [("k", "v")] := by decide +kernel
      rw [hentries, List.mem_singleton] at h
      cases h
      decide
  have hsteps : ∀ step ∈ steps, ({} : Options).PlainEvent step.2 := by
    simp only [steps, List.forall_mem_cons]
    exact ⟨he, he, List.forall_mem_nil _⟩
  exact ⟨hsteps, renderings_on_off {} Fields.empty steps hsteps, by decide +kernel, by decide +kernel⟩

end Options

end LegibleLog
