import LegibleLog.Proofs.Fields
import LegibleLog.Proofs.Validity
import LegibleLog.Session

/-!
# How options are settled

* `Layered` — a setting has the value of its flag, or else that of the file, or else the usual one;
* `Says file sees source table?` — what the source of a configuration says, if it can be read at all;
* `Config.read_eq_ok_iff` and `Config.Layers` — the configuration of a source, and where its settings come from, also
  once the flags are put over it;
* `Settled` — where the options of a session come from, and `Options.Sound` — what always holds of them;
* `Session.start_settles` — when a session begins, and with which options.
-/

namespace LegibleLog

/-! ### Settings in layers -/

section Layers

variable {α β : Type} {flag : Option α} {table? : Option Toml.Table} {key : String} {read : Toml.Value → Option α}
  {usual value : α}

/-- A setting has the value of its flag; without the flag that of the file, as `read` reads it; and the usual value
where the file does not have its key either. -/
def Layered (flag : Option α) (table? : Option Toml.Table) (key : String) (read : Toml.Value → Option α)
    (usual value : α) : Prop :=
  match flag, table?.bind (·.get? key) with
  | some given, _ => value = given
  | none, some written => read written = some value
  | none, none => value = usual

/-- A flag over the layers below it. -/
theorem Layered.getD (h : Layered none table? key read usual value) (flag : Option α) :
    Layered flag table? key read usual (flag.getD value) := by
  cases flag with
  | none => exact h
  | some given => rfl

/-- A list counts as given unless it is empty. -/
def givenList (keys : List String) : Option (List String) := if keys.isEmpty then none else some keys

/-- A list that is given over the layers below it. -/
theorem Layered.orUsual {read : Toml.Value → Option (List String)} {usual value : List String}
    (h : Layered none table? key read usual value) (keys : List String) :
    Layered (givenList keys) table? key read usual (Flags.orUsual keys value) := by
  unfold givenList Flags.orUsual
  split
  · exact h
  · rfl

theorem layered_of_setting? {t : Toml.Table} (h : Config.setting? t key read usual = some value) :
    Layered none (some t) key read usual value := by
  unfold Config.setting? at h
  unfold Layered
  rw [Option.bind_some]
  cases hget : t.get? key with
  | none =>
    rw [hget] at h
    exact (Option.some.inj h).symm
  | some written =>
    rw [hget] at h
    exact h

end Layers

/-! ### What a source says -/

/-- What a source says: the table of its document; or nothing, where no file is asked for, or none is seen in the user's
own place. -/
inductive Says (file : ReadFile) (sees : SeesFile) : ConfigSource → Option Toml.Table → Prop
  | nowhere : Says file sees .nowhere none
  | unseen {path : String} (h : sees path = false) : Says file sees (.personal path) none
  | document {source : ConfigSource} {path : String} {bytes : List UInt8} {s : String} {t : Toml.Table}
      (hsource : source = .named path ∨ source = .personal path ∧ sees path = true) (hbytes : file path = .ok bytes)
      (hs : Text.decode? bytes = some s) (ht : Toml.Document.ofText? s.toList = some t) :
      Says file sees source (some t)

namespace Config

variable {c : Config} {file : ReadFile} {sees : SeesFile} {source : ConfigSource} {table? : Option Toml.Table}

/-- The configuration of what a source says: the usual one where it says nothing. -/
def ofSource? : Option Toml.Table → Option Config
  | none => some {}
  | some t => ofTable? t

theorem ofFile_eq_ok_iff {path : String} {result : Except IoFailure (List UInt8)} :
    ofFile path result = .ok c ↔ ∃ bytes s t, result = .ok bytes ∧ Text.decode? bytes = some s ∧
      Toml.Document.ofText? s.toList = some t ∧ ofTable? t = some c := by
  cases result with
  | error e => simp [ofFile]
  | ok bytes =>
    cases hs : Text.decode? bytes with
    | none => simp [ofFile, hs]
    | some s =>
      cases ht : Toml.Document.ofText? s.toList with
      | none => simp [ofFile, hs, ht, ofToml?]
      | some t =>
        cases hc : ofTable? t with
        | none => simp [ofFile, hs, ht, hc, ofToml?]
        | some c => simp [ofFile, hs, ht, hc, ofToml?]

/-- **Reading a source** gives exactly the configuration of what the source says. -/
theorem read_eq_ok_iff :
    read file source sees = .ok c ↔ ∃ table?, Says file sees source table? ∧ ofSource? table? = some c := by
  constructor
  · intro h
    cases source with
    | named path =>
      obtain ⟨bytes, s, t, hbytes, hs, ht, hc⟩ := ofFile_eq_ok_iff.mp h
      exact ⟨some t, .document (.inl rfl) hbytes hs ht, hc⟩
    | personal path =>
      by_cases hsees : sees path = true
      · rw [read, if_pos hsees] at h
        obtain ⟨bytes, s, t, hbytes, hs, ht, hc⟩ := ofFile_eq_ok_iff.mp h
        exact ⟨some t, .document (.inr ⟨rfl, hsees⟩) hbytes hs ht, hc⟩
      · rw [read, if_neg hsees] at h
        cases h
        exact ⟨none, .unseen (Bool.eq_false_iff.mpr hsees), rfl⟩
    | nowhere =>
      cases h
      exact ⟨none, .nowhere, rfl⟩
  · rintro ⟨table?, hsays, hc⟩
    cases hsays with
    | nowhere =>
      cases hc
      rfl
    | unseen h =>
      cases hc
      rw [read, if_neg (Bool.eq_false_iff.mp h)]
    | @document source path bytes s t hsource hbytes hs ht =>
      have hfile : ofFile path (file path) = .ok c := ofFile_eq_ok_iff.mpr ⟨bytes, s, t, hbytes, hs, ht, hc⟩
      obtain rfl | ⟨rfl, hsees⟩ := hsource
      · exact hfile
      · rw [read, if_pos hsees]
        exact hfile

/-! ### Where the settings of a configuration come from -/

/-- Where the settings of a configuration come from: flags, what the source says, and usual values. -/
structure Layers (flags : Flags) (table? : Option Toml.Table) (c : Config) : Prop where
  skip : Layered (givenList flags.skip) table? "skip" Toml.Value.texts? [] c.skip
  keep : Layered (givenList flags.keep) table? "keep" Toml.Value.texts? [] c.keep
  sortLongest : Layered flags.sortLongest table? "sort_longest" Toml.Value.flag? true c.sortLongest
  skipUnchanged : Layered flags.skipUnchanged table? "skip_unchanged" Toml.Value.flag? true c.skipUnchanged
  truncate : Layered flags.truncate table? "truncate" Toml.Value.flag? false c.truncate
  truncateLength :
    Layered flags.truncateLength table? "truncate_length" Toml.Value.length? usualTruncateLength c.truncateLength
  colorMode : Layered (flags.color.map ColorMode.name) table? "color_mode" Toml.Value.text? "auto" c.colorMode
  lightBackground : Layered flags.lightBackground table? "light_bg" Toml.Value.flag? false c.lightBackground
  timeFormat : Layered flags.timeFormat table? "time_format" Toml.Value.text? usualTimeFormat c.timeFormat
  timeKeys : Layered (givenList flags.timeKeys) table? "time_fields" Toml.Value.texts? usualTimeKeys c.timeKeys
  messageKeys :
    Layered (givenList flags.messageKeys) table? "message_fields" Toml.Value.texts? usualMessageKeys c.messageKeys
  levelKeys : Layered (givenList flags.levelKeys) table? "level_fields" Toml.Value.texts? usualLevelKeys c.levelKeys
  ignoreInterrupts :
    Layered flags.ignoreInterrupts table? "ignore_interrupts" Toml.Value.flag? false c.ignoreInterrupts
  palette : Layered none table? "palette" overrides? (Palette.ofFn fun _ => none) c.palette

theorem layers_of_ofTable? {t : Toml.Table} (h : ofTable? t = some c) : Layers {} (some t) c := by
  unfold ofTable? at h
  obtain ⟨_, -, h⟩ := Option.bind_eq_some_iff.mp h
  obtain ⟨skip, hskip, h⟩ := Option.bind_eq_some_iff.mp h
  obtain ⟨keep, hkeep, h⟩ := Option.bind_eq_some_iff.mp h
  obtain ⟨sortLongest, hsortLongest, h⟩ := Option.bind_eq_some_iff.mp h
  obtain ⟨skipUnchanged, hskipUnchanged, h⟩ := Option.bind_eq_some_iff.mp h
  obtain ⟨truncate, htruncate, h⟩ := Option.bind_eq_some_iff.mp h
  obtain ⟨truncateLength, htruncateLength, h⟩ := Option.bind_eq_some_iff.mp h
  obtain ⟨colorMode, hcolorMode, h⟩ := Option.bind_eq_some_iff.mp h
  obtain ⟨lightBackground, hlightBackground, h⟩ := Option.bind_eq_some_iff.mp h
  obtain ⟨timeFormat, htimeFormat, h⟩ := Option.bind_eq_some_iff.mp h
  obtain ⟨timeKeys, htimeKeys, h⟩ := Option.bind_eq_some_iff.mp h
  obtain ⟨messageKeys, hmessageKeys, h⟩ := Option.bind_eq_some_iff.mp h
  obtain ⟨levelKeys, hlevelKeys, h⟩ := Option.bind_eq_some_iff.mp h
  obtain ⟨ignoreInterrupts, hignoreInterrupts, h⟩ := Option.bind_eq_some_iff.mp h
  obtain ⟨palette, hpalette, h⟩ := Option.bind_eq_some_iff.mp h
  cases h
  exact ⟨layered_of_setting? hskip, layered_of_setting? hkeep, layered_of_setting? hsortLongest,
    layered_of_setting? hskipUnchanged, layered_of_setting? htruncate, layered_of_setting? htruncateLength,
    layered_of_setting? hcolorMode, layered_of_setting? hlightBackground, layered_of_setting? htimeFormat,
    layered_of_setting? htimeKeys, layered_of_setting? hmessageKeys, layered_of_setting? hlevelKeys,
    layered_of_setting? hignoreInterrupts, layered_of_setting? hpalette⟩

/-- Without flags, the settings are those of the source and the usual ones. -/
theorem layers_of_ofSource? (h : ofSource? table? = some c) : Layers {} table? c := by
  cases table? with
  | none =>
    cases h
    exact ⟨rfl, rfl, rfl, rfl, rfl, rfl, rfl, rfl, rfl, rfl, rfl, rfl, rfl, rfl⟩
  | some t => exact layers_of_ofTable? h

/-- **Flags over a configuration.** -/
theorem Layers.apply (h : Layers {} table? c) (flags : Flags) : Layers flags table? (flags.apply c) where
  skip := h.skip.orUsual _
  keep := h.keep.orUsual _
  sortLongest := h.sortLongest.getD _
  skipUnchanged := h.skipUnchanged.getD _
  truncate := h.truncate.getD _
  truncateLength := h.truncateLength.getD _
  colorMode := h.colorMode.getD _
  lightBackground := h.lightBackground.getD _
  timeFormat := h.timeFormat.getD _
  timeKeys := h.timeKeys.orUsual _
  messageKeys := h.messageKeys.orUsual _
  levelKeys := h.levelKeys.orUsual _
  ignoreInterrupts := h.ignoreInterrupts.getD _
  palette := h.palette

end Config

/-! ### Color modes -/

namespace ColorMode

@[simp]
theorem ofWord_name (mode : ColorMode) : ofWord mode.name = .ok mode := by
  cases mode <;> decide +kernel

/-- The color mode that a value of a document asks for. -/
def ofValue? (v : Toml.Value) : Option ColorMode := v.text?.bind fun word => (ofWord word).toOption

theorem settle_eq_on_or_off (mode : ColorMode) (terminal noColor : Bool) :
    mode.settle terminal noColor = .on ∨ mode.settle terminal noColor = .off := by
  cases mode <;> cases terminal <;> cases noColor <;> decide

/-- The mode comes from where its word comes from. -/
theorem layered_of_word {flag : Option ColorMode} {table? : Option Toml.Table} {word : String} {mode : ColorMode}
    (h : Layered (flag.map name) table? "color_mode" Toml.Value.text? auto.name word) (hmode : ofWord word = .ok mode) :
    Layered flag table? "color_mode" ofValue? auto mode := by
  unfold Layered at h ⊢
  cases flag with
  | some given =>
    have hword : word = given.name := h
    rw [hword, ofWord_name] at hmode
    cases hmode
    rfl
  | none =>
    cases hget : table?.bind (·.get? "color_mode") with
    | some written =>
      simp only [hget, Option.map_none] at h
      simp [ofValue?, h, hmode, Except.toOption]
    | none =>
      simp only [hget, Option.map_none] at h
      rw [h, ofWord_name] at hmode
      cases hmode
      rfl

end ColorMode

/-! ### Options -/

/-- What always holds of the options of a session. -/
structure Options.Sound (o : Options) : Prop where
  exclusive : o.skip = [] ∨ o.keep = []
  timeKeys : o.roles.timeKeys ≠ []
  messageKeys : o.roles.messageKeys ≠ []
  levelKeys : o.roles.levelKeys ≠ []
  truncateLength : o.truncate = true → 0 < o.truncateLength
  color : o.color = .on ∨ o.color = .off

/-- Where the options of a session come from: flags, what the source says, and usual values. -/
structure Settled (around : Surroundings) (flags : Flags) (table? : Option Toml.Table) (session : Session) : Prop where
  skip : ∃ keys, Layered (givenList flags.skip) table? "skip" Toml.Value.texts? [] keys ∧
    ∀ key, key ∈ session.options.skip ↔ key ∈ keys
  keep : ∃ keys, Layered (givenList flags.keep) table? "keep" Toml.Value.texts? [] keys ∧
    ∀ key, key ∈ session.options.keep ↔ key ∈ keys
  sortLongest : Layered flags.sortLongest table? "sort_longest" Toml.Value.flag? true session.options.sortLongest
  skipUnchanged : Layered flags.skipUnchanged table? "skip_unchanged" Toml.Value.flag? true
    session.options.skipUnchanged
  truncate : Layered flags.truncate table? "truncate" Toml.Value.flag? false session.options.truncate
  truncateLength : Layered flags.truncateLength table? "truncate_length" Toml.Value.length? usualTruncateLength
    session.options.truncateLength
  color : ∃ mode, Layered flags.color table? "color_mode" ColorMode.ofValue? .auto mode ∧
    session.options.color = mode.settle around.terminal (Session.noColor around.environment)
  lightBackground : Layered flags.lightBackground table? "light_bg" Toml.Value.flag? false
    session.options.lightBackground
  timeFormat : Layered flags.timeFormat table? "time_format" Toml.Value.text? usualTimeFormat
    session.options.timeFormat
  timeKeys : Layered (givenList flags.timeKeys) table? "time_fields" Toml.Value.texts? usualTimeKeys
    session.options.roles.timeKeys
  messageKeys : Layered (givenList flags.messageKeys) table? "message_fields" Toml.Value.texts? usualMessageKeys
    session.options.roles.messageKeys
  levelKeys : Layered (givenList flags.levelKeys) table? "level_fields" Toml.Value.texts? usualLevelKeys
    session.options.roles.levelKeys
  ignoreInterrupts : Layered flags.ignoreInterrupts table? "ignore_interrupts" Toml.Value.flag? false
    session.ignoreInterrupts
  palette : ∃ overrides, Layered none table? "palette" Config.overrides? (Palette.ofFn fun _ => none) overrides ∧
    Palette.compile overrides = .ok session.options.palette
  year : session.options.roles.year = around.year

namespace Config

variable {c : Config} {flags : Flags} {table? : Option Toml.Table} {around : Surroundings}

theorem distinctKeys_eq_nil_iff {keys : List String} : distinctKeys keys = [] ↔ keys = [] := by
  simp only [List.eq_nil_iff_forall_not_mem, mem_distinctKeys_iff]

/-- **A valid configuration has options**, whatever the color mode is settled to. -/
theorem Valid.exists_options (h : c.Valid) (color : ColorMode) (year : Int) : ∃ o, c.options color year = .ok o := by
  obtain ⟨styles, hstyles⟩ := h.palette
  rw [options, styles_eq_ok_iff.mpr hstyles]
  exact ⟨_, rfl⟩

/-- A valid configuration asks for a color mode. -/
theorem Valid.exists_color (h : c.Valid) : ∃ mode, c.color = .ok mode := by
  obtain ⟨mode, hmode⟩ := h.color
  exact ⟨mode, color_eq_ok_iff.mpr hmode⟩

theorem Valid.sound {o : Options} {mode : ColorMode} {terminal noColor : Bool} {year : Int} (h : c.Valid)
    (ho : c.options (mode.settle terminal noColor) year = .ok o) : o.Sound := by
  obtain ⟨styles, -, ho⟩ := bind_eq_ok_iff.mp ho
  cases ho
  exact {
    exclusive := h.exclusive.imp distinctKeys_eq_nil_iff.mpr distinctKeys_eq_nil_iff.mpr
    timeKeys := h.timeKeys
    messageKeys := h.messageKeys
    levelKeys := h.levelKeys
    truncateLength := h.truncateLength
    color := mode.settle_eq_on_or_off terminal noColor }

theorem Layers.settled {mode : ColorMode} {o : Options} (h : Layers flags table? c) (hmode : c.color = .ok mode)
    (ho : c.options (mode.settle around.terminal (Session.noColor around.environment)) around.year = .ok o) :
    Settled around flags table? ⟨o, c.ignoreInterrupts⟩ := by
  obtain ⟨styles, hstyles, ho⟩ := bind_eq_ok_iff.mp ho
  cases ho
  exact {
    skip := ⟨c.skip, h.skip, fun _ => mem_distinctKeys_iff⟩
    keep := ⟨c.keep, h.keep, fun _ => mem_distinctKeys_iff⟩
    sortLongest := h.sortLongest
    skipUnchanged := h.skipUnchanged
    truncate := h.truncate
    truncateLength := h.truncateLength
    color := ⟨mode, ColorMode.layered_of_word h.colorMode (color_eq_ok_iff.mp hmode), rfl⟩
    lightBackground := h.lightBackground
    timeFormat := h.timeFormat
    timeKeys := h.timeKeys
    messageKeys := h.messageKeys
    levelKeys := h.levelKeys
    ignoreInterrupts := h.ignoreInterrupts
    palette := ⟨c.palette, h.palette, styles_eq_ok_iff.mp hstyles⟩
    year := rfl }

end Config

/-! ### Sessions -/

theorem Config.load_eq_ok_iff {file : ReadFile} {sees : SeesFile} {source : ConfigSource} {c : Config} :
    Config.load file source sees = .ok c ↔ Config.read file source sees = .ok c ∧ c.validate = .ok () := by
  unfold Config.load
  constructor
  · intro h
    obtain ⟨c', hread, h⟩ := bind_eq_ok_iff.mp h
    obtain ⟨u, hvalid, h⟩ := bind_eq_ok_iff.mp h
    cases h
    exact ⟨hread, mapError_eq_ok_iff.mp hvalid⟩
  · rintro ⟨hread, hvalid⟩
    exact bind_eq_ok_iff.mpr ⟨c, hread, bind_eq_ok_iff.mpr ⟨(), mapError_eq_ok_iff.mpr hvalid, rfl⟩⟩

namespace Session

/-- The steps of a session that begins. -/
theorem start_eq_ok_iff {around : Surroundings} {flags : Flags} {session : Session} : start around flags = .ok session ↔
    ∃ c mode o,
      Config.read around.file (.locate flags.config around.environment around.directory) around.sees = .ok c ∧
      c.validate = .ok () ∧ (flags.apply c).validate = .ok () ∧ (flags.apply c).color = .ok mode ∧
      (flags.apply c).options (mode.settle around.terminal (noColor around.environment)) around.year = .ok o ∧
      session = ⟨o, (flags.apply c).ignoreInterrupts⟩ := by
  unfold start
  constructor
  · intro h
    obtain ⟨c, hload, h⟩ := bind_eq_ok_iff.mp h
    obtain ⟨hread, hvalid⟩ := Config.load_eq_ok_iff.mp hload
    obtain ⟨u, hagain, h⟩ := bind_eq_ok_iff.mp h
    obtain ⟨mode, hmode, h⟩ := bind_eq_ok_iff.mp h
    obtain ⟨o, ho, h⟩ := bind_eq_ok_iff.mp h
    cases h
    exact ⟨c, mode, o, hread, hvalid, mapError_eq_ok_iff.mp hagain, mapError_eq_ok_iff.mp hmode,
      mapError_eq_ok_iff.mp ho, rfl⟩
  · rintro ⟨c, mode, o, hread, hvalid, hagain, hmode, ho, rfl⟩
    refine bind_eq_ok_iff.mpr ⟨c, Config.load_eq_ok_iff.mpr ⟨hread, hvalid⟩, ?_⟩
    refine bind_eq_ok_iff.mpr ⟨(), mapError_eq_ok_iff.mpr hagain, ?_⟩
    refine bind_eq_ok_iff.mpr ⟨mode, mapError_eq_ok_iff.mpr hmode, ?_⟩
    exact bind_eq_ok_iff.mpr ⟨o, mapError_eq_ok_iff.mpr ho, rfl⟩

/-- **How a session is settled.** It begins exactly when what its source says, taken as a configuration, is valid alone
and with the flags over it; for a valid configuration the steps after the check do not fail. Each option of a session
that begins comes from its flag, or else from the source, or else is the usual one, and the options are sound. -/
theorem start_settles (around : Surroundings) (flags : Flags) :
    ((∃ session, start around flags = .ok session) ↔
      ∃ table? c, Says around.file around.sees (.locate flags.config around.environment around.directory) table? ∧
        Config.ofSource? table? = some c ∧ c.validate = .ok () ∧ (flags.apply c).validate = .ok ()) ∧
    (∀ c : Config, c.validate = .ok () →
      (∃ mode, c.color = .ok mode) ∧ ∀ color year, ∃ o, c.options color year = .ok o) ∧
    ∀ session, start around flags = .ok session →
      ∃ table?, Says around.file around.sees (.locate flags.config around.environment around.directory) table? ∧
        Settled around flags table? session ∧ session.options.Sound := by
  refine ⟨⟨?_, ?_⟩, ?_, ?_⟩
  · rintro ⟨session, h⟩
    obtain ⟨c, -, -, hread, hvalid, hagain, -⟩ := start_eq_ok_iff.mp h
    obtain ⟨table?, hsays, hc⟩ := Config.read_eq_ok_iff.mp hread
    exact ⟨table?, c, hsays, hc, hvalid, hagain⟩
  · rintro ⟨table?, c, hsays, hc, hvalid, hagain⟩
    have hlast := Config.validate_eq_ok_iff.mp hagain
    obtain ⟨mode, hmode⟩ := hlast.exists_color
    obtain ⟨o, ho⟩ := hlast.exists_options (mode.settle around.terminal (noColor around.environment)) around.year
    exact ⟨_, start_eq_ok_iff.mpr
      ⟨c, mode, o, Config.read_eq_ok_iff.mpr ⟨table?, hsays, hc⟩, hvalid, hagain, hmode, ho, rfl⟩⟩
  · intro c hc
    have hvalid := Config.validate_eq_ok_iff.mp hc
    exact ⟨hvalid.exists_color, hvalid.exists_options⟩
  · intro session h
    obtain ⟨c, mode, o, hread, -, hagain, hmode, ho, rfl⟩ := start_eq_ok_iff.mp h
    obtain ⟨table?, hsays, hc⟩ := Config.read_eq_ok_iff.mp hread
    have hlayers := (Config.layers_of_ofSource? hc).apply flags
    exact ⟨table?, hsays, hlayers.settled hmode ho, (Config.validate_eq_ok_iff.mp hagain).sound ho⟩

/-- A flag over a file that has another length; what is skipped the file says. And a file of the user's own where one
may not look: the session begins as if it were not there, although it could not be read. -/
theorem start_settles_flag_over_file :
    let document := "truncate = true\ntruncate_length = 30\nskip = [\"pid\"]\n"
    let around : Surroundings :=
      { file := fun path => if path = "c.toml" then .ok (Text.encode document) else .error ⟨.notFound, ""⟩ }
    let flags : Flags := { config := some "c.toml", truncateLength := some 10, color := some .off }
    let closed : Surroundings := {
      directory := some "/home/user/.config", file := fun _ => .error ⟨.other, "Permission denied"⟩
      sees := fun _ => false }
    (∃ session, start around flags = .ok session ∧ session.options.truncateLength = 10 ∧
      session.options.truncate = true ∧ session.options.skip = ["pid"] ∧ session.options.Sound) ∧
    ∃ session, start closed { color := some .off } = .ok session ∧
      session.options.truncateLength = usualTruncateLength ∧ session.options.Sound := by
  intro document around flags closed
  constructor
  · have hread : ((start around flags).toOption.map fun session =>
        (session.options.truncate, session.options.skip)) = some (true, ["pid"]) := by decide +kernel
    cases hstart : start around flags with
    | error e =>
      rw [hstart] at hread
      cases hread
    | ok session =>
      rw [hstart] at hread
      obtain ⟨htruncate, hskip⟩ := Prod.mk.inj (Option.some.inj hread)
      obtain ⟨-, -, hall⟩ := start_settles around flags
      obtain ⟨table?, -, hsettled, hsound⟩ := hall session hstart
      exact ⟨session, rfl, hsettled.truncateLength, htruncate, hskip, hsound⟩
  · obtain ⟨hbegins, -, hall⟩ := start_settles closed { color := some .off }
    obtain ⟨session, hstart⟩ := hbegins.mpr ⟨none, {}, .unseen rfl, rfl, by decide +kernel, by decide +kernel⟩
    obtain ⟨table?, hsays, hsettled, hsound⟩ := hall session hstart
    cases hsays with
    | unseen => exact ⟨session, hstart, hsettled.truncateLength, hsound⟩
    | document hsource _ _ _ =>
      obtain hnamed | ⟨-, hseen⟩ := hsource
      · cases hnamed
      · cases hseen

end Session

end LegibleLog
