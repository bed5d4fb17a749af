import LegibleLog.ByKey
import LegibleLog.Time.Timestamp

/-!
# Events

An event is what one log line says: a time, a message and a level, each of which may be absent, and fields.

* `Fields` — a finite map from keys to texts, kept in the order of the keys, so that equal maps are equal;
* `Event` — an event, with the keys that its three roles had in the line.
-/

namespace LegibleLog

/-- A finite map from keys to texts. -/
structure Fields where
  entries : List (String × String)
  ascend : KeysAscend entries
deriving DecidableEq

namespace Fields

/-- No fields. -/
def empty : Fields := ⟨[], .nil⟩

instance : Inhabited Fields := ⟨empty⟩

/-- The last pair of each key. -/
def ofList (pairs : List (String × String)) : Fields := ⟨byKey pairs, keysAscend_byKey pairs⟩

/-- The value of a key. -/
def get? (fields : Fields) (key : String) : Option String := fields.entries.lookup key

/-- The keys in order. -/
def keys (fields : Fields) : List String := fields.entries.map (·.1)

/-- The fields with one key set to a value. -/
def insert (fields : Fields) (key value : String) : Fields := ofList (fields.entries ++ [(key, value)])

/-- The fields with a key set to a value if they do not have the key. -/
def insertNew (fields : Fields) (key value : String) : Fields :=
  match fields.get? key with
  | some _ => fields
  | none => fields.insert key value

end Fields

/-- The keys that time, message and level had in a line. -/
structure RoleKeys where
  time : Option String
  message : Option String
  level : Option String
deriving Repr, DecidableEq

/-- What one log line says. -/
structure Event where
  timestamp : Option Time.Timestamp
  message : Option String
  level : Option String
  fields : Fields
  roleKeys : RoleKeys
deriving DecidableEq

end LegibleLog
