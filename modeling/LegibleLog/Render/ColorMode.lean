import LegibleLog.Text.Blank

/-!
# Color modes

* `ColorMode` — whether output is colored: always, never, or on a terminal only;
* `ColorMode.ofWord` — the mode that a word asks for;
* `ColorMode.settle` — the mode once it is known what the output is.
-/

namespace LegibleLog

/-- Whether output is colored. -/
inductive ColorMode where
  | auto
  | on
  | off
deriving Repr, DecidableEq

/-- A word that asks for no color mode. -/
structure UnknownColorMode where
  word : String
deriving Repr, DecidableEq

/-- The wording of the error. -/
def UnknownColorMode.message (e : UnknownColorMode) : String :=
  "'" ++ e.word ++ "' is not a color mode (try 'on', 'off' or 'auto')"

namespace ColorMode

/-- All modes. -/
def all : List ColorMode := [auto, on, off]

/-- The name of a mode. -/
def name : ColorMode → String
  | auto => "auto"
  | on => "on"
  | off => "off"

/-- The words that ask for a mode. -/
def words : ColorMode → List String
  | auto => ["auto", "tty", "maybe", ""]
  | on => ["on", "always", "force", "true", "yes", "1"]
  | off => ["off", "never", "false", "no", "0"]

/-- A word as it is compared: without blanks around it, in lower case. -/
def folded (word : String) : String := String.ofList (Text.asciiLower (Text.trim word.toList))

/-- The mode that a word asks for. -/
def ofWord (word : String) : Except UnknownColorMode ColorMode :=
  match all.find? (·.words.contains (folded word)) with
  | some mode => .ok mode
  | none => .error ⟨folded word⟩

/-- The mode with exactly this name. -/
def ofName? (name : String) : Option ColorMode := all.find? (·.name == name)

/-- The mode once it is known whether the output is a terminal and whether its user wants no colors. -/
def settle (mode : ColorMode) (terminal noColor : Bool) : ColorMode :=
  match mode with
  | auto => if terminal && !noColor then on else off
  | mode => mode

/-- Output is colored only when that has been settled. -/
def enabled (mode : ColorMode) : Bool := mode == on

end ColorMode

end LegibleLog
