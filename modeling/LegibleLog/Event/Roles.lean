import LegibleLog.Event
import LegibleLog.Time.Written

/-!
# The roles of pairs

A record is a list of pairs in which a key may occur more than once.  Three of its keys may have a role, found by lists
of candidates.

* `RoleRules` — the candidates for time, message and level;
* `RoleRules.time? rules pairs` — the key with the role of the time;
* `takeText keys pairs` — the key with a role whose value is a text, and the pairs that remain;
* `Event.ofPairs rules pairs` — the event: time first, then message, then level, and the rest as fields.
-/

namespace LegibleLog

/-- A value before it has a role. -/
inductive RawValue where
  | text (s : String)
  /-- A number, which has no value when it is infinite or undefined, with its spelling. -/
  | number (value : Option Rat) (spelling : String)
deriving Repr, DecidableEq

/-- A value as text. -/
def RawValue.shown : RawValue → String
  | text s => s
  | number _ spelling => spelling

/-- The time that a value stands for. -/
def RawValue.time? (year : Int) : RawValue → Option Time.Timestamp
  | text s => Time.Timestamp.ofText? year s
  | number value _ => value.bind Time.Timestamp.ofEpoch?

/-- The usual candidates for the time. -/
def usualTimeKeys : List String := ["time", "ts", "@timestamp", "timestamp"]

/-- The usual candidates for the message. -/
def usualMessageKeys : List String := ["message", "msg"]

/-- The usual candidates for the level. -/
def usualLevelKeys : List String := ["level", "lvl", "loglevel", "severity"]

/-- The candidates for the three roles, the preferred ones first, and the year of times that are written without
one. -/
structure RoleRules where
  timeKeys : List String := usualTimeKeys
  messageKeys : List String := usualMessageKeys
  levelKeys : List String := usualLevelKeys
  year : Int := 2025
deriving Repr, DecidableEq

/-- The first candidate for the time whose first value is one. -/
def RoleRules.time? (rules : RoleRules) (pairs : List (String × RawValue)) : Option (String × Time.Timestamp) :=
  rules.timeKeys.findSome? fun key => ((pairs.lookup key).bind (·.time? rules.year)).map (key, ·)

/-- The pairs of other keys. -/
def withoutKey (key : String) (pairs : List (String × RawValue)) : List (String × RawValue) :=
  pairs.filter (·.1 != key)

/-- The first text of a key that is not empty. -/
def firstText? (key : String) (pairs : List (String × RawValue)) : Option String :=
  ((pairs.filter (·.1 == key)).map (·.2.shown)).find? (! ·.isEmpty)

/-- The first candidate that has a text, with that text, and the pairs without those of the candidates up to it. -/
def takeText : List String → List (String × RawValue) → Option (String × String) × List (String × RawValue)
  | [], pairs => (none, pairs)
  | key :: keys, pairs =>
    match firstText? key pairs with
    | some text => (some (key, text), withoutKey key pairs)
    | none => takeText keys (withoutKey key pairs)

/-- The event of a record. -/
def Event.ofPairs (rules : RoleRules) (pairs : List (String × RawValue)) : Event :=
  let time := rules.time? pairs
  let pairs := match time with
    | some (key, _) => withoutKey key pairs
    | none => pairs
  let (message, pairs) := takeText rules.messageKeys pairs
  let (level, pairs) := takeText rules.levelKeys pairs
  { timestamp := time.map (·.2)
    message := message.map (·.2)
    level := level.map (·.2)
    fields := Fields.ofList (pairs.map fun (key, value) => (key, value.shown))
    roleKeys := ⟨time.map (·.1), message.map (·.1), level.map (·.1)⟩ }

end LegibleLog
