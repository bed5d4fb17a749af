import LegibleLog.Toml.Value

/-!
# Tables under construction

A table grows by headers and by assignments.

* `Table.assign?` — a table with one more value, under a key with or without dots;
* `Table.header?`, `Table.itemHeader?` — a table with one more table, or one more item in a row of tables.

Each is refused where it would define something twice or let a finished table grow.
-/

namespace LegibleLog.Toml

namespace Table

/-- Changes the table at the end of a path. Tables on the way are made where they are missing, and in a row of tables the
last one is taken; on a path with dots no table with a header of its own may lie. -/
def alter? (dotted : Bool) (change : Table → Option Table) : List String → Table → Option Table
  | [], t => change t
  | key :: path, t =>
    match get? t key with
    | none =>
      let made : Table := { kind := if dotted then .dotted else .implied }
      (alter? dotted change path made).map fun u => put t key (.table u)
    | some (.table inner) =>
      if inner.kind == .inline || (dotted && inner.kind == .header) then none
      else (alter? dotted change path inner).map fun u => put t key (.table u)
    | some (.tables last) => (alter? dotted change path last).map fun u => put t key (.tables u)
    | some _ => none

/-- The table with a value under a new key. With `dots`, the table must have come to be by keys with dots, and without
them not. -/
def insert? (dots : Bool) (key : String) (v : Value) (t : Table) : Option Table :=
  if (t.kind == .dotted) == dots && (get? t key).isNone then some (put t key v) else none

/-- Assigns a value to a key, the parts of which are `path` and `key`. -/
def assign? (path : List String) (key : String) (v : Value) (t : Table) : Option Table :=
  alter? true (insert? (!path.isEmpty) key v) path t

/-- Gives a key a table of its own, unless it has one or something else. -/
def open? (key : String) (t : Table) : Option Table :=
  match get? t key with
  | none => some (put t key (.table { kind := .header }))
  | some (.table inner) =>
    if inner.kind == .implied then some (put t key (.table { inner with kind := .header })) else none
  | some _ => none

/-- Gives a key one more table in a row, unless it has something else. -/
def openItem? (key : String) (t : Table) : Option Table :=
  match get? t key with
  | none => some (put t key (.tables { kind := .header }))
  | some (.tables last) => some (put t key (.tables { kind := .header, valued := last.valued }))
  | some _ => none

/-- The document after a header. -/
def header? (path : List String) (key : String) (t : Table) : Option Table := alter? false (open? key) path t

/-- The document after a header in double brackets. -/
def itemHeader? (path : List String) (key : String) (t : Table) : Option Table :=
  alter? false (openItem? key) path t

end Table

end LegibleLog.Toml
