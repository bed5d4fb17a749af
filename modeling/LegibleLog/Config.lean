import LegibleLog.Render.Options
import LegibleLog.Time.Layout

/-!
# Configurations

* `Config` — the settings as they are given, colors by words and names;
* `ConfigFault` — what may be wrong with them, with its wording in `ConfigFault.message`;
* `Config.validate c` — the first fault of `c`, or none;
* `Config.options c color year` — the options that `c` gives.
-/

namespace LegibleLog

/-- The settings as they are given. -/
structure Config where
  skip : List String := []
  keep : List String := []
  sortLongest : Bool := true
  skipUnchanged : Bool := true
  truncate : Bool := false
  truncateLength : Nat := usualTruncateLength
  colorMode : String := ColorMode.auto.name
  lightBackground : Bool := false
  timeFormat : String := usualTimeFormat
  timeKeys : List String := usualTimeKeys
  messageKeys : List String := usualMessageKeys
  levelKeys : List String := usualLevelKeys
  /-- An interrupt does not end the program, which goes on until its input ends. -/
  ignoreInterrupts : Bool := false
  /-- Names of attributes for some kinds of text. -/
  palette : Palette (Option (List String)) := Palette.ofFn fun _ => none
deriving Repr, DecidableEq

/-- What may be wrong with a configuration. -/
inductive ConfigFault where
  | skipAndKeep
  | colorMode (e : UnknownColorMode)
  | noTimeKeys
  | noMessageKeys
  | noLevelKeys
  | zeroTruncateLength
  | timeFormat (layout : String)
  | palette (e : UnknownAttribute)
deriving Repr, DecidableEq

/-- The wording of a fault. -/
def ConfigFault.message : ConfigFault → String
  | skipAndKeep => "skip and keep are mutually exclusive, set only one of them"
  | colorMode e => e.message
  | noTimeKeys => "time_fields must not be empty"
  | noMessageKeys => "message_fields must not be empty"
  | noLevelKeys => "level_fields must not be empty"
  | zeroTruncateLength => "truncate_length must be > 0 when truncate is enabled"
  | timeFormat layout => "time_format '" ++ layout ++ "' is not a valid strftime format"
  | palette e => "palette: " ++ e.message

namespace Config

/-- The color mode that is asked for. -/
def color (c : Config) : Except ConfigFault ColorMode := (ColorMode.ofWord c.colorMode).mapError .colorMode

/-- The styles that are asked for. -/
def styles (c : Config) : Except ConfigFault (Palette Style) := (Palette.compile c.palette).mapError .palette

/-- Refuses a configuration when a condition holds. -/
def refuseIf (condition : Bool) (fault : ConfigFault) : Except ConfigFault Unit :=
  if condition then .error fault else .ok ()

/-- The first fault of a configuration. -/
def validate (c : Config) : Except ConfigFault Unit := do
  refuseIf (!c.skip.isEmpty && !c.keep.isEmpty) .skipAndKeep
  let _ ← c.color
  refuseIf c.timeKeys.isEmpty .noTimeKeys
  refuseIf c.messageKeys.isEmpty .noMessageKeys
  refuseIf c.levelKeys.isEmpty .noLevelKeys
  refuseIf (c.truncate && c.truncateLength == 0) .zeroTruncateLength
  refuseIf (Time.Layout.parse? c.timeFormat.toList).isNone (.timeFormat c.timeFormat)
  let _ ← c.styles
  return ()

/-- The options that a configuration gives, with a color mode that is settled and the year of times without one. -/
def options (c : Config) (color : ColorMode) (year : Int) : Except ConfigFault Options := do
  let palette ← c.styles
  return {
    skip := distinctKeys c.skip
    keep := distinctKeys c.keep
    sortLongest := c.sortLongest
    skipUnchanged := c.skipUnchanged
    truncate := c.truncate
    truncateLength := c.truncateLength
    color := color
    lightBackground := c.lightBackground
    timeFormat := c.timeFormat
    roles := ⟨c.timeKeys, c.messageKeys, c.levelKeys, year⟩
    palette := palette }

end Config

end LegibleLog
