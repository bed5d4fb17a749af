import LegibleLog.Render.Options
import LegibleLog.Text.Upper
import LegibleLog.Time.Writer
import Std.Data.HashSet

/-!
# Rendered lines

* `Part` — the parts of a rendered line, before they are painted;
* `Options.parts o unchanged earlier e` — the parts of the event `e`, where fields that `earlier` has as well may
  appear without their values;
* `Options.line` — the text of a line: its parts, painted, with spaces between them.
-/

namespace LegibleLog

/-! ### Pieces of text -/

/-- At most `n` characters of a text, with a mark where something is cut off. -/
def truncateText (n : Nat) (text : String) : String :=
  match text.toList.drop n with
  | [] => text
  | _ :: _ => String.ofList (text.toList.take n) ++ "..."

/-- A level in four capital letters at most. -/
def levelLabel (level : String) : String := String.ofList ((level.toList.flatMap Text.upper).take 4)

/-- What stands in for a message that is absent or empty. -/
def absentMessage : String := "<no msg>"

/-- A time by a layout; by a layout that cannot be written, in the form of RFC 3339. -/
def timeText (layout : String) (t : Time.Timestamp) : String :=
  (Time.Timestamp.format? layout t).getD (t.rfc3339 false)

/-! ### Parts -/

/-- A part of a rendered line. -/
inductive Part where
  | time (text : String)
  | level (cls : LevelClass) (label : String)
  | message (absent : Bool) (text : String)
  /-- A field without its value. -/
  | key (key : String)
  | field (key value : String)
deriving Repr, DecidableEq

namespace Options

/-- The fields that are shown, in order: by key, and with `sortLongest` those with shorter keys, in bytes, first. -/
def shownFields (o : Options) (fields : Fields) : List (String × String) :=
  let shown := fields.entries.filter fun (key, _) => o.showsField key
  if o.sortLongest then shown.mergeSort fun a b => a.1.utf8ByteSize ≤ b.1.utf8ByteSize else shown

/-- The keys that are shown, in order. -/
def shownKeys (o : Options) (fields : Fields) : List String := (o.shownFields fields).map (·.1)

/-- The part for the time of an event. -/
def timePart? (o : Options) (e : Event) : Option Part :=
  match e.timestamp with
  | some t => if o.showsRole e.roleKeys.time then some (.time (timeText o.timeFormat t)) else none
  | none => none

/-- The part for the level of an event. -/
def levelPart? (o : Options) (e : Event) : Option Part :=
  match e.level with
  | some level =>
    if !level.isEmpty && o.showsRole e.roleKeys.level then some (.level (LevelClass.ofText level) (levelLabel level))
    else none
  | none => none

/-- The part for the message of an event. -/
def messagePart? (o : Options) (e : Event) : Option Part :=
  if o.showsRole e.roleKeys.message then
    let message := e.message.getD ""
    some (if message.isEmpty then .message true absentMessage else .message false message)
  else none

/-- The value of a field as it is shown: cut when that is asked for. -/
def shownValue (o : Options) (value : String) : String :=
  if o.truncate then truncateText o.truncateLength value else value

/-- The part for a field. It is without its value if it may be, `unchanged` being allowed, and was there before. -/
def fieldPart (o : Options) (unchanged : Bool) (wasThere : String × String → Bool) (field : String × String) : Part :=
  if unchanged && !o.pinsValue field.1 && !field.2.isEmpty && wasThere field then .key field.1
  else .field field.1 (o.shownValue field.2)

/-- The parts for the three roles of an event. -/
def roleParts (o : Options) (e : Event) : List Part :=
  (o.timePart? e).toList ++ (o.levelPart? e).toList ++ (o.messagePart? e).toList

/-- The parts of an event. -/
def parts (o : Options) (unchanged : Bool) (earlier : Fields) (e : Event) : List Part :=
  let known := Std.HashSet.ofList earlier.entries
  o.roleParts e ++ (o.shownFields e.fields).map (o.fieldPart unchanged known.contains)

/-! ### Painting -/

/-- A text in the style of an entry of the palette. -/
def painted (o : Options) (entry : PaletteEntry) (text : String) : String :=
  (o.palette.get entry).paint o.color.enabled text

/-- The entry for times. -/
def timeEntry (o : Options) : PaletteEntry := if o.lightBackground then .timeLight else .timeDark

/-- The entry for messages. -/
def messageEntry (o : Options) (absent : Bool) : PaletteEntry :=
  match o.lightBackground, absent with
  | true, false => .messageLight
  | true, true => .absentLight
  | false, false => .messageDark
  | false, true => .absentDark

/-- The text of a part. -/
def partText (o : Options) : Part → String
  | .time text => o.painted o.timeEntry text
  | .level cls label => "|" ++ o.painted cls.entry label ++ "|"
  | .message absent text => o.painted (o.messageEntry absent) text
  | .key key => o.painted .key key
  | .field key value => o.painted .key key ++ "=" ++ o.painted .value value

/-- The text of parts, with spaces between them. -/
def partsText (o : Options) (parts : List Part) : String := " ".intercalate (parts.map o.partText)

/-- An event as a line. -/
def line (o : Options) (unchanged : Bool) (earlier : Fields) (e : Event) : String :=
  o.partsText (o.parts unchanged earlier e)

end Options

end LegibleLog
