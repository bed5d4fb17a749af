import LegibleLog.Proofs.ControlSequences
import LegibleLog.Proofs.Shapes
import LegibleLog.Proofs.Wrappers

/-!
# Records behind the name of a service

* `Banner` — what a composed service may write before a payload: its name, blanks and a bar, with colours between them;
* `Banner.strip_bytes`, `Banner.criLine_bytes` — the line without control sequences, which no container runtime writes;
* `Banner.event_bytes` — the event of the line is the one that the payload gives without its control sequences;
* `Banner.Transparent` — it is the one that the payload gives as it stands; `Banner.transparent_iff` says when.
-/

namespace LegibleLog

/-- The name of a service, spaces and a bar, with any number of colours before and behind each of them. -/
structure Banner where
  name : List UInt8
  padding : Nat
  onName : List (List UInt8)
  offName : List (List UInt8)
  onBar : List (List UInt8)
  offBar : List (List UInt8)
  name_ne_nil : name ≠ []
  name_bytes : ∀ b ∈ name, ComposeLine.isNameByte b = true
  padding_pos : 0 < padding
  colors : ∀ codes ∈ [onName, offName, onBar, offBar], ∀ code ∈ codes, Csi.IsColor code

namespace Banner

/-- The name as text. -/
def service (banner : Banner) : String := String.ofList (banner.name.map Char.ofUInt8)

/-- The spaces between name and bar. -/
def spaces (banner : Banner) : List UInt8 := List.replicate banner.padding ' '.toUInt8

/-- The line with a payload. -/
def bytes (banner : Banner) (payload : List UInt8) : List UInt8 :=
  banner.onName.flatten ++ (banner.name ++ (banner.offName.flatten ++ (banner.spaces ++ (banner.onBar.flatten ++
    '|'.toUInt8 :: (banner.offBar.flatten ++ ' '.toUInt8 :: payload)))))

/-- The event of a payload with the name of the service, which stands in for an absent field. -/
def serve (banner : Banner) (e : Event) : Event := { e with fields := e.fields.insertNew "service" banner.service }

variable (banner : Banner) {payload : List UInt8} {f : Format} {rules : RoleRules}

/-! ### The line without control sequences -/

theorem escape_notMem_name : Csi.escape ∉ banner.name := fun hmem => by
  have hlow := (ComposeLine.isNameByte_cases _ (banner.name_bytes _ hmem)).1
  exact absurd hlow (by decide)

theorem escape_notMem_spaces : Csi.escape ∉ banner.spaces := fun hmem => by
  have heq := List.eq_of_mem_replicate hmem
  exact absurd heq (by decide)

/-- **The banner without its colours**, and the payload without its control sequences. -/
theorem strip_bytes (payload : List UInt8) : Csi.strip (banner.bytes payload) =
    banner.name ++ (banner.spaces ++ '|'.toUInt8 :: ' '.toUInt8 :: Csi.strip payload) := by
  have hcolors := banner.colors
  simp only [List.forall_mem_cons] at hcolors
  obtain ⟨honName, hoffName, honBar, hoffBar, -⟩ := hcolors
  have hbar : ∀ rest, Csi.strip ('|'.toUInt8 :: rest) = '|'.toUInt8 :: Csi.strip rest :=
    fun rest => Csi.strip_cons (Csi.afterSequence?_of_ne (by decide))
  have hspace : ∀ rest, Csi.strip (' '.toUInt8 :: rest) = ' '.toUInt8 :: Csi.strip rest :=
    fun rest => Csi.strip_cons (Csi.afterSequence?_of_ne (by decide))
  rw [bytes, Csi.strip_colors_append honName, Csi.strip_append_of_notMem banner.escape_notMem_name,
    Csi.strip_colors_append hoffName, Csi.strip_append_of_notMem banner.escape_notMem_spaces,
    Csi.strip_colors_append honBar, hbar, Csi.strip_colors_append hoffBar, hspace]

theorem ofBytes?_bytes (hfeed : '\n'.toUInt8 ∉ payload) :
    ComposeLine.ofBytes? (banner.bytes payload) = some ⟨banner.service, Csi.strip payload⟩ := by
  have hne : banner.spaces ≠ [] := by
    rw [spaces, Ne, List.replicate_eq_nil_iff]
    exact Nat.ne_of_gt banner.padding_pos
  have hblank : ∀ b ∈ banner.spaces, Text.isAsciiBlank b = true := fun b hb => by
    rw [List.eq_of_mem_replicate hb]
    decide
  rw [ComposeLine.ofBytes?, strip_bytes, ComposeLine.ofPlain?_eq_some_iff]
  exact ⟨banner.name, banner.spaces, rfl, banner.name_ne_nil, banner.name_bytes, hne, hblank,
    fun hmem => hfeed ((Csi.strip_sublist payload).subset hmem), rfl⟩

/-! ### No line of a container runtime -/

/-- The bytes that no time has and that end the name of a service. -/
def isStop (b : UInt8) : Bool := b == Csi.escape || b == ' '.toUInt8

theorem isStop_of_visible : ∀ b : UInt8, 0x20 < b.toNat → isStop b = false := Text.forall_byte (by decide +kernel)

theorem colors_cases {codes : List (List UInt8)} (h : ∀ code ∈ codes, Csi.IsColor code) :
    codes.flatten = [] ∨ ∃ rest, codes.flatten = Csi.escape :: rest := by
  cases codes with
  | nil => exact .inl rfl
  | cons code codes =>
    obtain ⟨parameters, -, rfl⟩ := h _ List.mem_cons_self
    exact .inr ⟨_, rfl⟩

/-- Before the first escape byte or space, there is the name of the service or nothing. -/
theorem takeWhile_bytes (payload : List UInt8) :
    (banner.bytes payload).takeWhile (! isStop ·) = [] ∨
      (banner.bytes payload).takeWhile (! isStop ·) = banner.name := by
  have hcolors := banner.colors
  simp only [List.forall_mem_cons] at hcolors
  rcases colors_cases hcolors.1 with hon | ⟨rest, hon⟩
  · refine .inr ?_
    rw [bytes, hon, List.nil_append]
    refine (takeWhile_append_eq (fun b hb => ?_) ?_).1
    · rw [isStop_of_visible b (ComposeLine.isNameByte_cases b (banner.name_bytes b hb)).1]
      rfl
    · rcases colors_cases hcolors.2.1 with hoff | ⟨rest, hoff⟩
      · obtain ⟨n, hn⟩ := Nat.exists_eq_add_of_lt banner.padding_pos
        rw [hoff, List.nil_append, spaces, hn]
        rintro b ⟨⟩
        decide
      · rw [hoff]
        rintro b ⟨⟩
        decide
  · refine .inl ?_
    rw [bytes, hon, List.cons_append]
    exact List.takeWhile_cons_of_neg (by decide)

/-- The name is no time, since it has no colon. -/
theorem criLine_bytes (payload : List UInt8) : CriLine.ofBytes? (banner.bytes payload) = none := by
  refine Option.eq_none_iff_forall_ne_some.mpr fun cri hcri => ?_
  obtain ⟨time, tagged, hline, htime, hspace, -⟩ := CriLine.ofBytes?_cases hcri
  obtain ⟨hchars, hcolon, -⟩ := Time.timeChars_of_rfc3339? htime
  have hstop : ∀ b ∈ Text.encodeChars time, (! isStop b) = true := by
    intro b hb
    rw [isStop, Bool.not_eq_true', Bool.or_eq_false_iff, beq_eq_false_iff_ne, beq_eq_false_iff_ne]
    constructor
    · rintro rfl
      have hmem : '\x1b' ∈ time := (Text.toUInt8_mem_encodeChars_iff (by decide)).mp hb
      exact absurd (hchars _ hmem).1 (by decide)
    · rintro rfl
      exact hspace ((Text.toUInt8_mem_encodeChars_iff (by decide)).mp hb)
  have hhead : ∀ b ∈ (' '.toUInt8 :: (Text.encode cri.stream.name ++ ' '.toUInt8 :: tagged)).head?,
      (! isStop b) = false := by
    rintro b ⟨⟩
    decide
  obtain ⟨htake, -⟩ := takeWhile_append_eq hstop hhead
  rw [← hline] at htake
  rw [← Text.toUInt8_mem_encodeChars_iff (by decide), ← htake] at hcolon
  rcases banner.takeWhile_bytes payload with hnil | hname
  · rw [hnil] at hcolon
    cases hcolon
  · rw [hname] at hcolon
    exact (ComposeLine.isNameByte_cases _ (banner.name_bytes _ hcolon)).2.2.2 rfl

/-! ### The event -/

/-- **The event of the line** is the one of the payload without its control sequences, with the name of the service. -/
theorem event_bytes (hfeed : '\n'.toUInt8 ∉ payload) :
    (Shape.contained f).event rules (banner.bytes payload) =
      (Event.ofRecord f rules (Csi.strip payload)).map banner.serve := by
  simp only [Shape.event, Shape.containedEvent, criLine_bytes, banner.ofBytes?_bytes hfeed]
  rfl

/-- The payload gives this event once the name of the service is in it. -/
def Serves (f : Format) (rules : RoleRules) (payload : List UInt8) (e : Event) : Prop :=
  ∃ inner, Event.ofRecord f rules payload = .ok inner ∧ banner.serve inner = e

/-- The banner is transparent for a payload: the line has an event exactly when the payload has one, and it is the same
but for the name of the service. -/
def Transparent (f : Format) (rules : RoleRules) (payload : List UInt8) : Prop :=
  ∀ e, (Shape.contained f).event rules (banner.bytes payload) = .ok e ↔ banner.Serves f rules payload e

theorem event_bytes_eq_ok_iff (hfeed : '\n'.toUInt8 ∉ payload) {e : Event} :
    (Shape.contained f).event rules (banner.bytes payload) = .ok e ↔ banner.Serves f rules (Csi.strip payload) e := by
  rw [banner.event_bytes hfeed, map_eq_ok_iff, Serves]

/-- A record in JSON has no escape byte, and so no control sequence. -/
theorem free_of_readJson {pairs : List (String × RawValue)} (h : readJson payload = .ok pairs) : Csi.Free payload := by
  obtain ⟨cs, v, rfl, hv⟩ := readJson_cases h
  obtain ⟨ts, hts, -⟩ := Option.bind_eq_some_iff.mp hv
  refine Csi.free_of_notMem fun hmem => ?_
  have hescape : '\x1b' ∈ cs := (Text.toUInt8_mem_encodeChars_iff (by decide)).mp hmem
  rcases Json.isBlank_or_visible_of_tokens? hts _ hescape with hblank | hvisible
  · exact absurd hblank (by decide)
  · exact absurd hvisible (by decide)

theorem transparent_iff_serves (hfeed : '\n'.toUInt8 ∉ payload) : banner.Transparent f rules payload ↔
    ∀ e, banner.Serves f rules (Csi.strip payload) e ↔ banner.Serves f rules payload e :=
  forall_congr' fun _ => by rw [banner.event_bytes_eq_ok_iff hfeed]

theorem transparent_of_free (hfeed : '\n'.toUInt8 ∉ payload) (hfree : Csi.Free payload) :
    banner.Transparent f rules payload := by
  rw [banner.transparent_iff_serves hfeed, Csi.strip_eq_self_iff.mpr hfree]
  exact fun _ => Iff.rfl

theorem transparent_json_iff (hfeed : '\n'.toUInt8 ∉ payload) : banner.Transparent .json rules payload ↔
    Csi.Free payload ∨ ∀ inner, Event.ofRecord .json rules (Csi.strip payload) ≠ .ok inner := by
  constructor
  · intro h
    refine or_iff_not_imp_left.mpr fun hfree inner hinner => hfree ?_
    -- an event of the line is one of the payload as it stands, which then has no escape byte
    obtain ⟨inner', hinner', -⟩ := ((banner.transparent_iff_serves hfeed).mp h _).mp ⟨inner, hinner, rfl⟩
    obtain ⟨pairs, hpairs, -⟩ := Event.ofRecord_eq_ok_iff.mp hinner'
    exact free_of_readJson hpairs
  · rintro (hfree | hnone)
    · exact banner.transparent_of_free hfeed hfree
    · refine (banner.transparent_iff_serves hfeed).mpr fun e => ?_
      constructor
      · rintro ⟨inner, hinner, -⟩
        exact absurd hinner (hnone inner)
      · rintro ⟨inner, hinner, -⟩
        obtain ⟨pairs, hpairs, -⟩ := Event.ofRecord_eq_ok_iff.mp hinner
        rw [Csi.strip_eq_self_iff.mpr (free_of_readJson hpairs)] at hnone
        exact absurd hinner (hnone inner)

/-- **Transparency.** The event of a line behind a banner is the one of its payload without control sequences. Hence the
banner is transparent exactly where these sequences make no difference; it is for every payload without one, and for a
payload with one in JSON exactly when the payload without it is no record. -/
theorem transparent_iff (hfeed : '\n'.toUInt8 ∉ payload) :
    (∀ e, (Shape.contained f).event rules (banner.bytes payload) = .ok e ↔
        banner.Serves f rules (Csi.strip payload) e) ∧
      (banner.Transparent f rules payload ↔
        ∀ e, banner.Serves f rules (Csi.strip payload) e ↔ banner.Serves f rules payload e) ∧
      (Csi.Free payload → banner.Transparent f rules payload) ∧
      (banner.Transparent .json rules payload ↔
        Csi.Free payload ∨ ∀ inner, Event.ofRecord .json rules (Csi.strip payload) ≠ .ok inner) :=
  ⟨fun _ => banner.event_bytes_eq_ok_iff hfeed, banner.transparent_iff_serves hfeed, banner.transparent_of_free hfeed,
    banner.transparent_json_iff hfeed⟩

/-- The name of a service in cyan up to behind the bar. -/
def cyanApi : Banner where
  name := Text.encode "api-1"
  padding := 2
  onName := [Text.encode "\x1b[36m"]
  offName := []
  onBar := []
  offBar := [Text.encode "\x1b[0m"]
  name_ne_nil := by decide +kernel
  name_bytes := by decide +kernel
  padding_pos := by decide
  colors := by
    have hcyan : Csi.IsColor (Text.encode "\x1b[36m") := ⟨Text.encode "36", by decide +kernel, by decide +kernel⟩
    have hreset : Csi.IsColor (Text.encode "\x1b[0m") := ⟨Text.encode "0", by decide +kernel, by decide +kernel⟩
    simp [hcyan, hreset]

/-- A record behind the coloured name has the event that it has alone, with the name. -/
theorem transparent_iff_cyan :
    '\n'.toUInt8 ∉ Text.encode "level=info msg=ok" ∧
      cyanApi.bytes (Text.encode "level=info msg=ok") = Text.encode "\x1b[36mapi-1  |\x1b[0m level=info msg=ok" ∧
      cyanApi.Transparent .logfmt {} (Text.encode "level=info msg=ok") ∧
      (Shape.contained .logfmt).event {} (cyanApi.bytes (Text.encode "level=info msg=ok")) =
        .ok ⟨none, some "ok", some "info", Fields.ofList [("service", "api-1")],
          ⟨none, some "msg", some "level"⟩⟩ := by
  have hfeed : '\n'.toUInt8 ∉ Text.encode "level=info msg=ok" := by decide
  have hescape : Csi.escape ∉ Text.encode "level=info msg=ok" := by decide
  exact ⟨hfeed, by decide, (cyanApi.transparent_iff hfeed).2.2.1 (Csi.free_of_notMem hescape), by decide +kernel⟩

/-- The name of a service without colours. -/
def plainWeb : Banner where
  name := Text.encode "web"
  padding := 1
  onName := []
  offName := []
  onBar := []
  offBar := []
  name_ne_nil := by decide +kernel
  name_bytes := by decide +kernel
  padding_pos := by decide
  colors := by simp

/-- The colours of a message do not come through a banner. -/
theorem not_transparent_of_colored_message :
    ∃ e inner, (Shape.contained .logfmt).event {} (plainWeb.bytes (Text.encode "msg=\"\x1b[31mred\"")) = .ok e ∧
      Event.ofRecord .logfmt {} (Text.encode "msg=\"\x1b[31mred\"") = .ok inner ∧
      e.message = some "red" ∧ inner.message = some "\x1b[31mred" ∧
      ¬ plainWeb.Transparent .logfmt {} (Text.encode "msg=\"\x1b[31mred\"") := by
  have hline : (Shape.contained .logfmt).event {} (plainWeb.bytes (Text.encode "msg=\"\x1b[31mred\"")) =
      .ok ⟨none, some "red", none, Fields.ofList [("service", "web")], ⟨none, some "msg", none⟩⟩ := by
    decide +kernel
  have halone : Event.ofRecord .logfmt {} (Text.encode "msg=\"\x1b[31mred\"") =
      .ok ⟨none, some "\x1b[31mred", none, Fields.empty, ⟨none, some "msg", none⟩⟩ := by
    decide +kernel
  refine ⟨_, _, hline, halone, rfl, rfl, fun h => ?_⟩
  obtain ⟨inner, hinner, heq⟩ := (h _).mp hline
  rw [halone] at hinner
  obtain rfl := Except.ok.inj hinner
  have hmessage := congrArg Event.message heq
  exact absurd hmessage (by decide)

end Banner

end LegibleLog
