import LegibleLog.Event.Roles
import LegibleLog.Render.ColorMode
import LegibleLog.Render.Palette

/-!
# Options of rendering

* `Options` — how events are rendered, and which keys have roles;
* `Options.showsField`, `Options.showsRole`, `Options.pinsValue` — which fields and roles appear in a line, and which
  fields always with their value.
-/

namespace LegibleLog

/-- The usual layout of times, such as `Jan  2 15:04:05`. -/
def usualTimeFormat : String := "%b %e %H:%M:%S"

/-- How much is left of a value that is cut, when nothing else is said. -/
def usualTruncateLength : Nat := 15

/-- How events are rendered, and which keys have roles. -/
structure Options where
  /-- Keys that are not shown. -/
  skip : List String := []
  /-- Keys that are shown, all other fields being hidden. -/
  keep : List String := []
  /-- Shorter keys come first. -/
  sortLongest : Bool := true
  /-- A value that the line before had as well is left out. -/
  skipUnchanged : Bool := true
  /-- Long values are cut. -/
  truncate : Bool := false
  /-- How much is left of a value that is cut. -/
  truncateLength : Nat := usualTruncateLength
  color : ColorMode := .off
  /-- The terminal has a light background. -/
  lightBackground : Bool := false
  timeFormat : String := usualTimeFormat
  roles : RoleRules := {}
  palette : Palette Style := Palette.standard
deriving DecidableEq

namespace Options

/-- A field is shown unless it is skipped, or not kept while others are. -/
def showsField (o : Options) (key : String) : Bool :=
  o.keep.contains key || (o.keep.isEmpty && !o.skip.contains key)

/-- A role is shown unless the key that it had in the line is skipped. -/
def showsRole (o : Options) : Option String → Bool
  | some key => !o.skip.contains key || o.keep.contains key
  | none => true

/-- A key that is kept is always shown with its value. -/
def pinsValue (o : Options) (key : String) : Bool := o.keep.contains key

end Options

end LegibleLog
