import LegibleLog.Toml.Table
import LegibleLog.Toml.Text
import LegibleLog.Toml.Word

/-!
# Documents of TOML

* `readValue?` — a value at the front of a text;
* `Statement` — a line of a document; `statements?` reads them;
* `Document.ofText? cs` — the table that a document describes.
-/

namespace LegibleLog.Toml

/-! ### Blanks and comments -/

/-- The text after a comment, up to the end of its line; nothing when the comment holds a control character. -/
def afterComment? (cs : List Char) : Option (List Char) :=
  match cs with
  | '#' :: r =>
    match r.dropWhile isPlain with
    | [] => some []
    | '\n' :: rest => some ('\n' :: rest)
    | '\r' :: '\n' :: rest => some ('\n' :: rest)
    | _ => none
  | cs => some cs

/-- The text after spaces. -/
def skipSpaces (cs : List Char) : List Char := cs.dropWhile isSpace

/-- The text after blanks, line ends and comments, of which there are at most `fuel`. -/
def skipFiller? : Nat → List Char → Option (List Char)
  | 0, cs => some cs
  | fuel + 1, cs =>
    match skipSpaces cs with
    | '\n' :: r => skipFiller? fuel r
    | '\r' :: '\n' :: r => skipFiller? fuel r
    | '#' :: r =>
      match afterComment? ('#' :: r) with
      | some rest => skipFiller? fuel rest
      | none => none
    | r => some r

/-! ### Keys -/

/-- A character of a key without quotes. -/
def isKeyChar (c : Char) : Bool := c.isAlphanum || c == '_' || c == '-'

/-- One part of a key. -/
def readKeyPart? : List Char → Option (String × List Char)
  | '"' :: r => readBasic? [] r
  | '\'' :: r => readLiteral? [] r
  | cs =>
    let part := cs.takeWhile isKeyChar
    if part.isEmpty then none else some (String.ofList part, cs.dropWhile isKeyChar)

/-- The parts of a key, with points between them: all but the last, and the last; `done` holds those before, the last
one first. There are at most `most` of these parts. -/
def readKeyFrom? (done : List String) : Nat → List Char → Option ((List String × String) × List Char)
  | 0, _ => none
  | most + 1, cs =>
    match readKeyPart? (skipSpaces cs) with
    | none => none
    | some (part, r) =>
      match skipSpaces r with
      | '.' :: r => readKeyFrom? (part :: done) most r
      | r => some ((done.reverse, part), r)

/-- How many parts a key may have, and how deep arrays and tables may be nested. -/
def maxDepth : Nat := 80

/-- The key at the front of a text. -/
def readKey? (cs : List Char) : Option ((List String × String) × List Char) := readKeyFrom? [] maxDepth cs

/-! ### Values -/

/-- A character of a word without quotes. -/
def isWordChar (c : Char) : Bool :=
  !(isSpace c || ['\n', '\r', '#', '=', ',', '[', ']', '\x7b', '\x7d'].contains c)

/-- A word without quotes around it, and the text after it. Blanks belong to it where it goes on behind them. -/
def readWord (cs : List Char) : List Char × List Char :=
  let isPart := fun c => isWordChar c || isSpace c
  (((cs.takeWhile isPart).reverse.dropWhile isSpace).reverse, cs.dropWhile isPart)

/-- The items of an array up to its closing bracket, read by `item`; `done` holds those before, the last one first. -/
def readItems? (item : List Char → Option (Value × List Char)) (limit : Nat) (done : List Value) :
    Nat → List Char → Option (List Value × List Char)
  | 0, _ => none
  | fuel + 1, cs =>
    match skipFiller? limit cs with
    | none => none
    | some (']' :: r) => some (done.reverse, r)
    | some cs =>
      match item cs with
      | none => none
      | some (v, r) =>
        match skipFiller? limit r with
        | some (',' :: r) => readItems? item limit (v :: done) fuel r
        | some (']' :: r) => some ((v :: done).reverse, r)
        | _ => none

/-- A member of a table between braces, with a value read by `item`. Its key, equals sign and value may stand on lines of
their own. -/
def readMember? (item : List Char → Option (Value × List Char)) (limit : Nat) (cs : List Char) :
    Option ((List String × String) × Value × List Char) := do
  let (key, r) ← readKey? cs
  match ← skipFiller? limit r with
  | '=' :: r =>
    let (v, r) ← item (← skipFiller? limit r)
    return (key, v, r)
  | _ => none

/-- The members of a table between braces up to its closing brace, with values read by `item`. -/
def readMembers? (item : List Char → Option (Value × List Char)) (limit : Nat) (t : Table) :
    Nat → List Char → Option (Table × List Char)
  | 0, _ => none
  | fuel + 1, cs =>
    match skipFiller? limit cs with
    | none => none
    | some ('\x7d' :: r) => some (t, r)
    | some cs =>
      match readMember? item limit cs with
      | none => none
      | some ((path, key), v, r) =>
        match t.assign? path key v, skipFiller? limit r with
        | some t, some (',' :: r) => readMembers? item limit t fuel r
        | some t, some ('\x7d' :: r) => some (t, r)
        | _, _ => none

/-- The value at the front of a text. It may be nested `depth` deep, a scalar counting as one; `limit` is not less than
the length of the text. -/
def readValue? (limit : Nat) : Nat → List Char → Option (Value × List Char)
  | 0 => fun _ => none
  | depth + 1 => fun cs =>
    match cs with
    | '[' :: r =>
      if depth = 0 then none
      else (readItems? (readValue? limit depth) limit [] limit r).map fun (items, r) => (.ofItems items, r)
    | '\x7b' :: r =>
      if depth = 0 then none
      else (readMembers? (readValue? limit depth) limit .empty limit r).map fun (t, r) =>
        (.table { t with kind := .inline }, r)
    | '"' :: r => (readText? ('"' :: r)).map fun (s, r) => (.string s, r)
    | '\'' :: r => (readText? ('\'' :: r)).map fun (s, r) => (.string s, r)
    | cs => (Value.ofWord? (readWord cs).1).map (·, (readWord cs).2)

/-! ### Statements -/

/-- A line of a document. -/
inductive Statement where
  | header (path : List String) (key : String)
  | itemHeader (path : List String) (key : String)
  | assign (path : List String) (key : String) (v : Value)

/-- The statement at the front of a text. -/
def readStatement? (limit : Nat) : List Char → Option (Statement × List Char)
  | '[' :: '[' :: r =>
    match readKey? r with
    | some ((path, key), ']' :: ']' :: r) => some (.itemHeader path key, r)
    | _ => none
  | '[' :: r =>
    match readKey? r with
    | some ((path, key), ']' :: r) => some (.header path key, r)
    | _ => none
  | cs =>
    match readKey? cs with
    | some ((path, key), '=' :: r) =>
      (readValue? limit (maxDepth + 1) (skipSpaces r)).map fun (v, r) => (.assign path key v, r)
    | _ => none

/-- The text after the end of a statement's line: spaces, a comment and a line end, or the end of the document. -/
def afterLine? (cs : List Char) : Option (List Char) :=
  match afterComment? (skipSpaces cs) with
  | some [] => some []
  | some ('\n' :: r) => some r
  | some ('\r' :: '\n' :: r) => some r
  | _ => none

/-- The statements of a document after those in `done`, which are held the last one first. -/
def statementsFrom? (limit : Nat) (done : List Statement) : Nat → List Char → Option (List Statement)
  | 0, _ => none
  | fuel + 1, cs =>
    match skipFiller? limit cs with
    | none => none
    | some [] => some done.reverse
    | some cs =>
      match readStatement? limit cs with
      | none => none
      | some (s, r) =>
        match afterLine? r with
        | some r => statementsFrom? limit (s :: done) fuel r
        | none => none

/-- The statements of a document, before which a byte order mark may stand. -/
def statements? (cs : List Char) : Option (List Statement) :=
  let cs := match cs with
    | '\uFEFF' :: r => r
    | r => r
  statementsFrom? (cs.length + 1) [] (cs.length + 1) cs

/-! ### Documents -/

/-- A document under construction: the table so far, and the path of the table that assignments go to. -/
structure Document where
  root : Table
  current : List String

namespace Document

/-- The document after one more statement. -/
def add? (d : Document) : Statement → Option Document
  | .header path key => (d.root.header? path key).map fun t => ⟨t, path ++ [key]⟩
  | .itemHeader path key => (d.root.itemHeader? path key).map fun t => ⟨t, path ++ [key]⟩
  | .assign path key v =>
    (Table.alter? false (Table.assign? path key v) d.current d.root).map fun t => ⟨t, d.current⟩

/-- The table that a document describes. -/
def ofText? (cs : List Char) : Option Table := do
  let d ← (← statements? cs).foldlM add? ⟨.empty, []⟩
  return d.root

end Document

end LegibleLog.Toml
