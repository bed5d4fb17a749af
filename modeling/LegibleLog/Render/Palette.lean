import LegibleLog.Render.Style

/-!
# Palettes

* `Palette α` — something of type `α` for each of the fifteen kinds of text in a rendered line;
* `Palette.standard` — the styles used when nothing else is said;
* `Palette.compile overrides` — the styles with some of them given by names;
* `LevelClass` — the kinds of levels.
-/

namespace LegibleLog

/-- The kinds of text that have a style, some of them one for light and one for dark terminals. -/
inductive PaletteEntry where
  | key
  | value
  | timeLight
  | timeDark
  | messageLight
  | absentLight
  | messageDark
  | absentDark
  | debugLevel
  | infoLevel
  | warnLevel
  | errorLevel
  | panicLevel
  | fatalLevel
  | unknownLevel
deriving Repr, DecidableEq

namespace PaletteEntry

/-- All entries in order. -/
def all : List PaletteEntry :=
  [key, value, timeLight, timeDark, messageLight, absentLight, messageDark, absentDark, debugLevel, infoLevel,
    warnLevel, errorLevel, panicLevel, fatalLevel, unknownLevel]

/-- The name of an entry. -/
def name : PaletteEntry → String
  | key => "key"
  | value => "value"
  | timeLight => "time_light_bg"
  | timeDark => "time_dark_bg"
  | messageLight => "msg_light_bg"
  | absentLight => "msg_absent_light_bg"
  | messageDark => "msg_dark_bg"
  | absentDark => "msg_absent_dark_bg"
  | debugLevel => "debug_level"
  | infoLevel => "info_level"
  | warnLevel => "warn_level"
  | errorLevel => "error_level"
  | panicLevel => "panic_level"
  | fatalLevel => "fatal_level"
  | unknownLevel => "unknown_level"

end PaletteEntry

/-- Something for each entry. -/
structure Palette (α : Type) where
  key : α
  value : α
  timeLight : α
  timeDark : α
  messageLight : α
  absentLight : α
  messageDark : α
  absentDark : α
  debugLevel : α
  infoLevel : α
  warnLevel : α
  errorLevel : α
  panicLevel : α
  fatalLevel : α
  unknownLevel : α
deriving Repr, DecidableEq

namespace Palette

variable {α : Type}

/-- What the palette has for an entry. -/
def get (p : Palette α) : PaletteEntry → α
  | .key => p.key
  | .value => p.value
  | .timeLight => p.timeLight
  | .timeDark => p.timeDark
  | .messageLight => p.messageLight
  | .absentLight => p.absentLight
  | .messageDark => p.messageDark
  | .absentDark => p.absentDark
  | .debugLevel => p.debugLevel
  | .infoLevel => p.infoLevel
  | .warnLevel => p.warnLevel
  | .errorLevel => p.errorLevel
  | .panicLevel => p.panicLevel
  | .fatalLevel => p.fatalLevel
  | .unknownLevel => p.unknownLevel

/-- The palette that has `f e` for each entry `e`. -/
def ofFn (f : PaletteEntry → α) : Palette α where
  key := f .key
  value := f .value
  timeLight := f .timeLight
  timeDark := f .timeDark
  messageLight := f .messageLight
  absentLight := f .absentLight
  messageDark := f .messageDark
  absentDark := f .absentDark
  debugLevel := f .debugLevel
  infoLevel := f .infoLevel
  warnLevel := f .warnLevel
  errorLevel := f .errorLevel
  panicLevel := f .panicLevel
  fatalLevel := f .fatalLevel
  unknownLevel := f .unknownLevel

@[simp]
theorem get_ofFn (f : PaletteEntry → α) (e : PaletteEntry) : (ofFn f).get e = f e := by cases e <;> rfl

theorem ofFn_get (p : Palette α) : ofFn p.get = p := rfl

/-- The styles used when nothing else is said. -/
def standard : Palette Style where
  key := .ofAttributes [.foreground false .green]
  value := .ofAttributes [.foreground true .white]
  timeLight := .ofAttributes [.foreground false .black]
  timeDark := .ofAttributes [.foreground false .white]
  messageLight := .ofAttributes [.foreground false .black]
  absentLight := .ofAttributes [.foreground true .black]
  messageDark := .ofAttributes [.foreground true .white]
  absentDark := .ofAttributes [.foreground false .white]
  debugLevel := .ofAttributes [.foreground false .magenta]
  infoLevel := .ofAttributes [.foreground false .cyan]
  warnLevel := .ofAttributes [.foreground false .yellow]
  errorLevel := .ofAttributes [.foreground false .red]
  panicLevel := .ofAttributes [.background false .red]
  fatalLevel := .ofAttributes [.background true .red, .foreground true .white]
  unknownLevel := .ofAttributes [.foreground false .magenta]

/-- The first unknown name among the overrides, in the order of the entries. -/
def firstUnknown? (overrides : Palette (Option (List String))) : Option UnknownAttribute :=
  PaletteEntry.all.findSome? fun e => (overrides.get e).bind Style.firstUnknown?

/-- The standard styles, except where names are given for an entry. -/
def compile (overrides : Palette (Option (List String))) : Except UnknownAttribute (Palette Style) :=
  match firstUnknown? overrides with
  | some e => .error e
  | none =>
    .ok (ofFn fun e =>
      match overrides.get e with
      | some names => Style.ofKnown names
      | none => standard.get e)

end Palette

/-! ### Levels -/

/-- The kinds of levels. -/
inductive LevelClass where
  | debug
  | info
  | warn
  | error
  | panic
  | fatal
  | unknown
deriving Repr, DecidableEq

namespace LevelClass

/-- The words for levels. -/
def words : List (String × LevelClass) :=
  [("debug", debug), ("trace", debug), ("info", info), ("warn", warn), ("warning", warn), ("error", error),
    ("err", error), ("panic", panic), ("fatal", fatal), ("critical", fatal)]

/-- The kind of a level; blanks around it and the case of its letters do not matter. -/
def ofText (level : String) : LevelClass :=
  (words.lookup (String.ofList (Text.asciiLower (Text.trim level.toList)))).getD unknown

/-- The entry of a palette for a kind of level. -/
def entry : LevelClass → PaletteEntry
  | debug => .debugLevel
  | info => .infoLevel
  | warn => .warnLevel
  | error => .errorLevel
  | panic => .panicLevel
  | fatal => .fatalLevel
  | unknown => .unknownLevel

end LevelClass

end LegibleLog
