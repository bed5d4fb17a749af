import LegibleLog.Event.Roles
import LegibleLog.Json.Builder
import LegibleLog.Logfmt
import LegibleLog.Text.Utf8

/-!
# Records as events

* `Format` — the two forms of a record, a JSON object and a row of logfmt tokens;
* `Refusal` — why bytes are no record of a form, with its wording in `Refusal.message`;
* `Event.ofRecord f rules bytes` — the event of a record in form `f`;
* `Event.json e` — the event as a JSON object.
-/

namespace LegibleLog

/-- The forms of a record. -/
inductive Format where
  | json
  | logfmt
deriving Repr, DecidableEq

namespace Format

/-- All forms. -/
def all : List Format := [json, logfmt]

/-- The name of a form. -/
def name : Format → String
  | json => "json"
  | logfmt => "logfmt"

/-- The form with exactly this name. -/
def ofName? (name : String) : Option Format := all.find? (·.name == name)

end Format

/-- Why a line is not taken for an event. -/
inductive Refusal where
  | noBrace
  | invalidJson
  | notObject
  | noEquals
  | notUtf8
  | logfmt (e : Logfmt.Error)
  /-- The line does not have the wrapper that is asked for. -/
  | noWrapper
deriving Repr, DecidableEq

/-- The wording of a refusal. -/
def Refusal.message : Refusal → String
  | noBrace => "Invalid format: JSON object must start with '\x7b'"
  | invalidJson => "Parse failed: Invalid JSON"
  | notObject => "Invalid format: JSON is not an object"
  | noEquals => "Invalid format: no '=' in line"
  | notUtf8 => "Non-UTF8 content"
  | logfmt e => "Parse failed: " ++ e.message
  | noWrapper => "Prefix not present"

/-! ### JSON -/

/-- A member of an object as a value of a record: what has parts is kept as text. -/
def RawValue.ofJson : Json.Value → RawValue
  | .scalar (.string s) => .text s
  | .scalar (.integer n) => .number (some (Binary64.nearest n)) (toString n)
  | .scalar (.real negative magnitude) =>
    .number (some (if negative then -magnitude else magnitude)) (Shortest.text negative magnitude)
  | v => .text v.text

/-- The pairs of a JSON object. -/
def readJson (bytes : List UInt8) : Except Refusal (List (String × RawValue)) :=
  if (bytes.dropWhile Text.isFeedBlank).head? = some '\x7b'.toUInt8 then
    match (Text.decode? bytes).bind fun s => Json.Value.ofText? s.toList with
    | some (.object members) => .ok (members.map fun (key, value) => (key, RawValue.ofJson value))
    | some _ => .error .notObject
    | none => .error .invalidJson
  else .error .noBrace

/-! ### Logfmt -/

/-- The pairs of a row of logfmt tokens. -/
def readLogfmt (bytes : List UInt8) : Except Refusal (List (String × RawValue)) :=
  if bytes.contains '='.toUInt8 then
    match Text.decode? bytes with
    | none => .error .notUtf8
    | some s =>
      match Logfmt.decode s.toList with
      | .ok pairs => .ok (pairs.map fun (key, value) => (key, .text value))
      | .error e => .error (.logfmt e)
  else .error .noEquals

/-! ### Either form -/

/-- The pairs of a record. -/
def Format.read : Format → List UInt8 → Except Refusal (List (String × RawValue))
  | json => readJson
  | logfmt => readLogfmt

/-- The event of a record. -/
def Event.ofRecord (f : Format) (rules : RoleRules) (bytes : List UInt8) : Except Refusal Event :=
  (f.read bytes).map (Event.ofPairs rules)

/-! ### Events as JSON -/

/-- A text, or null. -/
def optionalText (text : Option String) : Json.Value :=
  match text with
  | some s => .scalar (.string s)
  | none => .scalar .null

/-- An event as a JSON object, without the keys of its roles. -/
def Event.json (e : Event) : Json.Value :=
  .object
    [("fields", .object (e.fields.entries.map fun (key, value) => (key, .scalar (.string value)))),
      ("level", optionalText e.level), ("message", optionalText e.message),
      ("timestamp", optionalText (e.timestamp.map (·.rfc3339 true)))]

end LegibleLog
