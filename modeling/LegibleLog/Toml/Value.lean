import Std.Data.TreeMap.Raw

/-!
# Values of TOML

* `Value` — values, in which a table remembers how it came to be;
* `Value.isValued v` — all numbers in `v` have a value;
* `Table.get?`, `Table.put` — the value of a key, and a table with a value for a key.

Floats and times are checked but not kept.
-/

namespace LegibleLog.Toml

/-- How a table came to be, on which depends how it may grow. -/
inductive TableKind where
  /-- By a header of its own, or as the whole document. -/
  | header
  /-- By the header of a table inside it. -/
  | implied
  /-- By a key with dots. -/
  | dotted
  /-- Between braces; it cannot grow. -/
  | inline
deriving Repr, DecidableEq

/-- Values by keys: how the table of them came to be, and whether all numbers in it have a value. -/
structure TableOf (α : Type) where
  kind : TableKind
  valued : Bool := true
  entries : Std.TreeMap.Raw String α compare := {}

/-- A value. -/
inductive Value where
  | string (s : String)
  | integer (n : Int)
  | float
  /-- A word in the form of a number without a value: it is too large, or not all of its characters are digits. -/
  | valueless
  | boolean (b : Bool)
  | time
  /-- The items, and whether all numbers in them have a value. -/
  | array (valued : Bool) (items : List Value)
  /-- A row of tables under headers in double brackets: the last one, which alone can grow. It answers for the numbers in
  those before it. -/
  | tables (last : TableOf Value)
  | table (t : TableOf Value)

/-- A table. -/
abbrev Table := TableOf Value

namespace Value

/-- Whether all numbers in a value have a value. -/
def isValued : Value → Bool
  | valueless => false
  | array valued _ => valued
  | tables last => last.valued
  | table t => t.valued
  | _ => true

/-- The array of some items. -/
def ofItems (items : List Value) : Value := array (items.all isValued) items

end Value

namespace Table

/-- The empty document. -/
def empty : Table := { kind := .header }

/-- The value of a key. -/
def get? (t : Table) (key : String) : Option Value := t.entries[key]?

/-- The table with a value for a key. A value in place of another answers for the numbers in that one. -/
def put (t : Table) (key : String) (v : Value) : Table :=
  { t with valued := t.valued && v.isValued, entries := t.entries.insert key v }

end Table

end LegibleLog.Toml
