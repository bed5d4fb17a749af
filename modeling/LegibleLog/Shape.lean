import LegibleLog.Event.Record
import LegibleLog.Wrapper.Compose
import LegibleLog.Wrapper.Cri
import LegibleLog.Wrapper.Zap

/-!
# Shapes of lines

* `Shape` — the shapes that a structured line may have, in the order in which they are tried;
* `Shape.event s rules line` — the event of a line of shape `s`;
* `recognize? rules line` — the first shape that a line has, with the event.
-/

namespace LegibleLog

/-- The shapes of structured lines: a record alone, a record that a container runtime or a composed service wrapped, and
a console line with a JSON body. -/
inductive Shape where
  | bare (f : Format)
  | contained (f : Format)
  | console
deriving Repr, DecidableEq

namespace Shape

/-- All shapes, in the order in which they are tried. -/
def all : List Shape := [bare .json, bare .logfmt, contained .json, contained .logfmt, console]

/-- The name of a shape. -/
def name : Shape → String
  | bare .json => "json"
  | bare .logfmt => "logfmt"
  | contained .json => "container_json"
  | contained .logfmt => "container_logfmt"
  | console => "zap_dev_json"

/-- The form of the record in a line. -/
def format : Shape → Format
  | bare f => f
  | contained f => f
  | console => .json

/-- The event of a record in a wrapper. The time of the runtime stands in for an absent one, and the name of the service
for an absent field. -/
def containedEvent (f : Format) (rules : RoleRules) (line : List UInt8) : Except Refusal Event :=
  match CriLine.ofBytes? line with
  | some cri =>
    (Event.ofRecord f rules cri.payload).map fun e => { e with timestamp := e.timestamp <|> some cri.timestamp }
  | none =>
    match ComposeLine.ofBytes? line with
    | some compose =>
      (Event.ofRecord f rules compose.payload).map fun e =>
        { e with fields := e.fields.insertNew "service" compose.service }
    | none => .error .noWrapper

/-- The keys that time, message and level go by on a console line. -/
def consoleKeys : RoleKeys := ⟨some "ts", some "msg", some "level"⟩

/-- The event of a console line: its own words hold the three roles, whatever the body says. -/
def consoleEvent (rules : RoleRules) (line : List UInt8) : Except Refusal Event :=
  match ZapLine.ofBytes? line with
  | some zap =>
    (Event.ofRecord .json rules zap.body).map fun e =>
      { timestamp := some zap.timestamp
        message := some zap.message
        level := some zap.level
        fields := e.fields.insert "caller" zap.caller
        roleKeys := consoleKeys }
  | none => .error .noWrapper

/-- The event of a line of the given shape. -/
def event (s : Shape) (rules : RoleRules) (line : List UInt8) : Except Refusal Event :=
  match s with
  | bare f => Event.ofRecord f rules line
  | contained f => containedEvent f rules line
  | console => consoleEvent rules line

end Shape

/-- The first shape that a line has, with the event. -/
def recognize? (rules : RoleRules) (line : List UInt8) : Option (Shape × Event) :=
  Shape.all.findSome? fun s =>
    match s.event rules line with
    | .ok e => some (s, e)
    | .error _ => none

end LegibleLog
