import LegibleLog.Text.Blank
import LegibleLog.Text.Utf8
import LegibleLog.Time.Written

/-!
# Console lines with a JSON body

A console line has a timestamp, a level, the place in a program, a message and, after a tab, a JSON body; blanks stand
between the first four.

* `ZapLine` — such a line in its parts;
* `ZapLine.ofBytes? line` — the parts of a line.
-/

namespace LegibleLog

/-- A console line in its parts. -/
structure ZapLine where
  timestamp : Time.Timestamp
  level : String
  caller : String
  message : String
  body : List UInt8

namespace ZapLine

/-! ### The words at the front -/

/-- The bytes up to the first blank, the blanks, and what follows them. -/
def splitWord (line : List UInt8) : List UInt8 × List UInt8 × List UInt8 :=
  let rest := line.dropWhile (! Text.isAsciiBlank ·)
  (line.takeWhile (! Text.isAsciiBlank ·), rest.takeWhile Text.isAsciiBlank, rest.dropWhile Text.isAsciiBlank)

/-- An ASCII digit. -/
def isDigit (b : UInt8) : Bool := '0'.toUInt8 ≤ b && b ≤ '9'.toUInt8

/-- The bytes after those that a mask describes: a zero stands for a digit, all else for itself. -/
def afterMask? : List Char → List UInt8 → Option (List UInt8)
  | [], r => some r
  | '0' :: mask, b :: r => if isDigit b then afterMask? mask r else none
  | c :: mask, b :: r => if b == c.toUInt8 then afterMask? mask r else none
  | _ :: _, [] => none

/-- A zone, and nothing after it. -/
def isZone (bytes : List UInt8) : Bool :=
  ["Z", "+00:00", "+0000", "-00:00", "-0000"].any fun mask => afterMask? mask.toList bytes == some []

/-- A fraction or none, and a zone. -/
def isFractionAndZone : List UInt8 → Bool
  | point :: b :: r =>
    if point == '.'.toUInt8 && isDigit b then isZone (r.dropWhile isDigit) else isZone (point :: b :: r)
  | r => isZone r

/-- The form that the timestamp of a console line has. -/
def isStamp (word : List UInt8) : Bool :=
  match afterMask? "0000-00-00T00:00:00".toList word with
  | some r => isFractionAndZone r
  | none => false

/-- The form that a level has: letters. -/
def isLevel (word : List UInt8) : Bool := !word.isEmpty && word.all fun b => (Char.ofUInt8 b).isAlpha

/-- The form that a place has: a number at the end, after a colon that does not stand first. -/
def isCaller (word : List UInt8) : Bool :=
  let place := word.reverse.dropWhile isDigit
  place.length < word.length &&
    match place with
    | colon :: _ :: _ => colon == ':'.toUInt8
    | _ => false

/-! ### Message and body -/

/-- The bytes before the first tab that an opening brace follows, and those from the brace on; `done` holds the bytes
before, the last one first. -/
def splitAtBody? (done : List UInt8) : List UInt8 → Option (List UInt8 × List UInt8)
  | [] => none
  | b :: r =>
    if b == '\t'.toUInt8 && r.head? == some '\x7b'.toUInt8 then some (done.reverse, r) else splitAtBody? (b :: done) r

/-- Message and body of a line, given the blanks before them. A line without a message has the tab among the blanks. -/
def splitMessage? (blanks rest : List UInt8) : Option (List UInt8 × List UInt8) :=
  if rest.contains '\n'.toUInt8 || rest.getLast? != some '\x7d'.toUInt8 then none
  else
    match splitAtBody? [] rest with
    | some split => some split
    | none =>
      if 2 ≤ blanks.length && blanks.getLast? == some '\t'.toUInt8 && rest.head? == some '\x7b'.toUInt8 then
        some ([], rest)
      else none

/-! ### The line -/

/-- The instant that a timestamp of this form names, if there is one. -/
def time? (word : List Char) : Option Time.Timestamp := Time.compactPattern.zoned? word <|> Time.rfc3339? word

/-- The parts of a line. -/
def ofBytes? (line : List UInt8) : Option ZapLine := do
  let (stamp, _, r) := splitWord line
  if !isStamp stamp then none
  let (level, _, r) := splitWord r
  if !isLevel level then none
  let (caller, blanks, r) := splitWord r
  if !isCaller caller then none
  let (message, body) ← splitMessage? blanks r
  return {
    timestamp := ← time? (stamp.map Char.ofUInt8)
    level := String.ofList (Text.asciiLower (level.map Char.ofUInt8))
    caller := ← Text.decode? caller
    message := ← Text.decode? message
    body := body }

end ZapLine

end LegibleLog
