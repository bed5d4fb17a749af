import LegibleLog.Number.Decimal
import LegibleLog.Time.Calendar
import LegibleLog.Toml.Text
import LegibleLog.Toml.Value

/-!
# Words of TOML

`Value.ofWord? word` is the number, truth value or time that a word without quotes around it stands for.

A word is refused by its form alone.  A number whose form is right may still turn out `valueless`: one that is too
large, one with a mark for its base and no digits, or one in which characters that are no digits, tabs among them, come
after an underscore.
-/

namespace LegibleLog.Toml

/-! ### Underscores -/

/-- Whether every underscore has a digit after it and one before it; `before` says whether a digit stands before the
text. -/
def joinsDigits (isDigit : Char → Bool) (before : Bool) : List Char → Bool
  | [] => true
  | c :: r =>
    if c == '_' then before && r.head?.any isDigit && joinsDigits isDigit false r
    else joinsDigits isDigit (isDigit c) r

/-- A text without its underscores. -/
def withoutUnderscores (cs : List Char) : List Char := cs.filter (· != '_')

/-! ### Integers -/

/-- A digit of a base up to sixteen. -/
def isDigitOf (base : Nat) (c : Char) : Bool := (Text.hexValue? c).any (· < base)

/-- The number that digits of a base write after `n`, if there is nothing but digits and it is at most `largest`. -/
def natOfBaseFrom? (base largest n : Nat) : List Char → Option Nat
  | [] => some n
  | c :: r =>
    match Text.hexValue? c with
    | some d => if d < base && base * n + d ≤ largest then natOfBaseFrom? base largest (base * n + d) r else none
    | none => none

/-- The value of an integer in some base, its sign and the mark of the base taken off. Integers lie between `-2 ^ 127`
and `2 ^ 128 - 1`. -/
def Value.ofDigits (base : Nat) (negative : Bool) (cs : List Char) : Value :=
  let largest :=
    if negative then 0x8000_0000_0000_0000_0000_0000_0000_0000 else 0xFFFF_FFFF_FFFF_FFFF_FFFF_FFFF_FFFF_FFFF
  match withoutUnderscores cs with
  | [] => .valueless
  | ds =>
    match natOfBaseFrom? base largest 0 ds with
    | some n => .integer (if negative then -(n : Int) else n)
    | none => .valueless

/-- An integer in base sixteen, eight or two, the mark of the base taken off. -/
def markedInteger? (base : Nat) (cs : List Char) : Option Value :=
  if cs.all (fun c => isDigitOf base c || c == '_') && joinsDigits (isDigitOf base) false cs then
    some (.ofDigits base false cs)
  else none

/-- A decimal integer, its sign taken off. Its form asks for no more than digits up to the first underscore, no zero in
front, no space, and underscores between digits of any base. -/
def decimalInteger? (negative : Bool) (cs : List Char) : Option Value :=
  let zeroInFront := cs.head? == some '0' && 1 < cs.length
  let tail := cs.dropWhile Char.isDigit
  let underscores := joinsDigits (isDigitOf 16) false cs
  if !zeroInFront && (tail.isEmpty || tail.head? == some '_') && !cs.contains ' ' && underscores then
    some (.ofDigits 10 negative cs)
  else none

/-! ### Floats -/

/-- A float with a point or a power of ten, its sign taken off. -/
def float? (cs : List Char) : Option Value :=
  let text := withoutUnderscores cs
  let zeroInFront := cs.head? == some '0' && (text.drop 1).head?.any Char.isDigit
  let pointBeforeDigit :=
    match text.dropWhile Char.isDigit with
    | '.' :: r => r.head?.any Char.isDigit
    | _ => true
  if !zeroInFront && pointBeforeDigit && joinsDigits Char.isDigit false cs then
    (Decimal.parse? text).map fun d => if d.toBinary64?.isSome then .float else .valueless
  else none

/-! ### Numbers -/

/-- A number, its sign taken off. -/
def unsignedNumber? (signed negative : Bool) : List Char → Option Value
  | '0' :: 'x' :: r => if signed then none else markedInteger? 16 r
  | '0' :: 'o' :: r => if signed then none else markedInteger? 8 r
  | '0' :: 'b' :: r => if signed then none else markedInteger? 2 r
  | c :: r =>
    if c.isDigit then
      if (c :: r).any fun c => c == '.' || c == 'e' || c == 'E' then float? (c :: r)
      else decimalInteger? negative (c :: r)
    else if c :: r == "inf".toList || c :: r == "nan".toList then some .float
    else none
  | [] => none

/-- A number. -/
def number? : List Char → Option Value
  | '+' :: r => unsignedNumber? true false r
  | '-' :: r => unsignedNumber? true true r
  | r => unsignedNumber? false false r

/-! ### Times -/

/-- Two digits with a value of at most `limit`. -/
def readPair? (limit : Nat) : List Char → Option (List Char)
  | a :: b :: r => if a.isDigit && b.isDigit && natOfDigits [a, b] ≤ limit then some r else none
  | _ => none

/-- The character `c`. -/
def readMark? (c : Char) : List Char → Option (List Char)
  | d :: r => if d == c then some r else none
  | [] => none

/-- The text after a date. -/
def afterDate? (cs : List Char) : Option (List Char) := do
  let r ← readPair? 12 (← readMark? '-' (cs.drop 4))
  let r ← readPair? 31 (← readMark? '-' r)
  let date : Time.Date :=
    ⟨natOfDigits (cs.take 4), natOfDigits ((cs.drop 5).take 2), natOfDigits ((cs.drop 8).take 2)⟩
  if (cs.take 4).all Char.isDigit && 1 ≤ date.month && date.isValid then some r else none

/-- The text after the seconds of a time, if it has seconds. -/
def afterSeconds? : List Char → Option (List Char)
  | ':' :: r =>
    match readPair? 60 r with
    | some ('.' :: r) => if (r.takeWhile Char.isDigit).isEmpty then none else some (r.dropWhile Char.isDigit)
    | rest => rest
  | r => some r

/-- The text after a time of day. -/
def afterTime? (cs : List Char) : Option (List Char) := do
  afterSeconds? (← readPair? 59 (← readMark? ':' (← readPair? 23 cs)))

/-- The offset of a time, or none. -/
def isOffset : List Char → Bool
  | [] => true
  | ['Z'] => true
  | ['z'] => true
  | c :: r =>
    (c == '+' || c == '-') && (do readPair? 59 (← readMark? ':' (← readPair? 23 r)) : Option (List Char)) == some []

/-- A date, a time of day, or both with or without an offset. -/
def isTime (cs : List Char) : Bool :=
  match afterDate? cs with
  | some [] => true
  | some (c :: r) => (c == 'T' || c == 't' || c == ' ') && (afterTime? r).any isOffset
  | none => afterTime? cs == some []

/-! ### Words -/

/-- Whether a quote stands behind a blank; `blank` says whether a blank stands before the text. -/
def hasQuoteBehindBlank (blank : Bool) : List Char → Bool
  | [] => false
  | c :: r => (blank && (c == '"' || c == '\'')) || hasQuoteBehindBlank (isSpace c) r

/-- The value of a word without quotes around it. -/
def Value.ofWord? (word : List Char) : Option Value :=
  if hasQuoteBehindBlank false word then none
  else if word == "true".toList then some (.boolean true)
  else if word == "false".toList then some (.boolean false)
  else if isTime word then some .time
  else number? word

end LegibleLog.Toml
