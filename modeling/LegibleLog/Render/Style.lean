import LegibleLog.Text.Blank

/-!
# Styles of text on a terminal

* `Attribute` — boldness, colors and the like, with names and the numbers that terminals know them by;
* `Style` — the numbers of a text's properties; `Style.ofNames` reads them by the names of attributes;
* `Style.paint s enabled text` — a text between the control sequences that switch a style on and off.
-/

namespace LegibleLog

/-- The eight basic colors. -/
inductive Color where
  | black
  | red
  | green
  | yellow
  | blue
  | magenta
  | cyan
  | white
deriving Repr, DecidableEq

namespace Color

/-- All colors, in the order of their numbers. -/
def all : List Color := [black, red, green, yellow, blue, magenta, cyan, white]

/-- The name of a color. -/
def name : Color → String
  | black => "black"
  | red => "red"
  | green => "green"
  | yellow => "yellow"
  | blue => "blue"
  | magenta => "magenta"
  | cyan => "cyan"
  | white => "white"

/-- The number of a color. -/
def index : Color → Nat
  | black => 0
  | red => 1
  | green => 2
  | yellow => 3
  | blue => 4
  | magenta => 5
  | cyan => 6
  | white => 7

end Color

/-- One property of a text on a terminal. A bright color is a lighter variant of the basic one. -/
inductive Attribute where
  | bold
  | faint
  | italic
  | underline
  | foreground (bright : Bool) (c : Color)
  | background (bright : Bool) (c : Color)
deriving Repr, DecidableEq

namespace Attribute

/-- All attributes. -/
def all : List Attribute :=
  [bold, faint, italic, underline] ++ Color.all.map (foreground false) ++ Color.all.map (foreground true) ++
    Color.all.map (background false) ++ Color.all.map (background true)

/-- The name of an attribute. -/
def name : Attribute → String
  | bold => "bold"
  | faint => "faint"
  | italic => "italic"
  | underline => "underline"
  | foreground bright c => (if bright then "hi_" else "") ++ c.name
  | background bright c => (if bright then "bg_hi_" else "bg_") ++ c.name

/-- The number of an attribute in a control sequence. -/
def code : Attribute → Nat
  | bold => 1
  | faint => 2
  | italic => 3
  | underline => 4
  | foreground bright c => (if bright then 90 else 30) + c.index
  | background bright c => (if bright then 100 else 40) + c.index

/-- A name as it is compared: without blanks around it, in lower case, with underscores for hyphens. -/
def folded (name : String) : String :=
  String.ofList ((Text.asciiLower (Text.trim name.toList)).map fun c => if c == '-' then '_' else c)

/-- The attribute with a name. -/
def ofName? (name : String) : Option Attribute := all.find? (·.name == folded name)

end Attribute

/-- A name that no attribute has. -/
structure UnknownAttribute where
  name : String
deriving Repr, DecidableEq

/-- The wording of the error. -/
def UnknownAttribute.message (e : UnknownAttribute) : String := "unknown color attribute '" ++ e.name ++ "'"

/-- The numbers of a text's properties, in the order in which they are switched on. They need not be those of
attributes that have a name. -/
structure Style where
  codes : List Nat
deriving Repr, DecidableEq

namespace Style

/-- The style with the given attributes. -/
def ofAttributes (attributes : List Attribute) : Style := ⟨attributes.map Attribute.code⟩

/-- The first of the names that no attribute has. -/
def firstUnknown? (names : List String) : Option UnknownAttribute :=
  (names.find? fun name => (Attribute.ofName? name).isNone).map (⟨·⟩)

/-- The style with the attributes of the given names; names without an attribute are left out. -/
def ofKnown (names : List String) : Style := ofAttributes (names.filterMap Attribute.ofName?)

/-- The style with the attributes of the given names. -/
def ofNames (names : List String) : Except UnknownAttribute Style :=
  match firstUnknown? names with
  | some e => .error e
  | none => .ok (ofKnown names)

/-- Switches the style on. -/
def start (s : Style) : String := "\x1b[" ++ ";".intercalate (s.codes.map toString) ++ "m"

/-- Switches all styles off. -/
def stop : String := "\x1b[0m"

/-- A text in the style; an empty text, and all text when painting is not enabled, stays as it is. -/
def paint (s : Style) (enabled : Bool) (text : String) : String :=
  if enabled && !s.codes.isEmpty && !text.isEmpty then s.start ++ text ++ stop else text

end Style

end LegibleLog
