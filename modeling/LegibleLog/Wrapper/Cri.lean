import LegibleLog.Text.Utf8
import LegibleLog.Time.Internet

/-!
# Lines of container runtimes

A container runtime writes a timestamp, the name of a stream and, as a rule, a tag before the text of a container.

* `byteAt`, `bytesBefore`, `bytesFrom` — bytes by their places, of which a line may not have one;
* `CriLine` — a line of a container runtime in its parts;
* `CriLine.read bytes` — the parts of a line, or a place that reading met and the line does not have;
* `CriLine.ofBytes? bytes` — the parts of a line.
-/

namespace LegibleLog

/-! ### Places -/

/-- A place that a line does not have. -/
structure OutOfRange where
  place : Nat
deriving Repr, DecidableEq

/-- The byte at a place. -/
def byteAt (bytes : List UInt8) (place : Nat) : Except OutOfRange UInt8 :=
  match bytes[place]? with
  | some b => .ok b
  | none => .error ⟨place⟩

/-- The bytes before a place, which may be the end. -/
def bytesBefore (bytes : List UInt8) (place : Nat) : Except OutOfRange (List UInt8) :=
  if place ≤ bytes.length then .ok (bytes.take place) else .error ⟨place⟩

/-- The bytes from a place on, which may be the end. -/
def bytesFrom (bytes : List UInt8) (place : Nat) : Except OutOfRange (List UInt8) :=
  if place ≤ bytes.length then .ok (bytes.drop place) else .error ⟨place⟩

/-! ### Lines -/

/-- The streams that a container writes to. -/
inductive ContainerStream where
  | stdout
  | stderr
deriving Repr, DecidableEq

/-- The name of a stream. -/
def ContainerStream.name : ContainerStream → String
  | stdout => "stdout"
  | stderr => "stderr"

/-- The stream with a name. -/
def ContainerStream.ofName? (name : List UInt8) : Option ContainerStream :=
  [stdout, stderr].find? fun stream => name == Text.encode stream.name

/-- A line that a container runtime has put a timestamp and a stream before. -/
structure CriLine where
  timestamp : Time.Timestamp
  stream : ContainerStream
  payload : List UInt8
deriving Repr, DecidableEq

namespace CriLine

/-- The length of the shortest timestamp and a space. -/
def leastLength : Nat := 21

/-- The signs between the numbers of a timestamp, with their places. A capital `T` stands between date and time. -/
def signs : List (Nat × Char) := [(4, '-'), (7, '-'), (10, 'T'), (13, ':'), (16, ':')]

/-- Whether signs are in their places. No place behind that of a wrong sign is looked at. -/
def hasSigns (bytes : List UInt8) : List (Nat × Char) → Except OutOfRange Bool
  | [] => return true
  | (place, sign) :: more => do
    if (← byteAt bytes place) == sign.toUInt8 then hasSigns bytes more else return false

/-- Whether a line is long enough to begin with a timestamp, and looks as if it did. -/
def looksStamped (bytes : List UInt8) : Except OutOfRange Bool := do
  if bytes.length < leastLength then return false
  if (Char.ofUInt8 (← byteAt bytes 0)).isDigit then hasSigns bytes signs else return false

/-- The bytes before and after the first space. -/
def splitAtSpace (bytes : List UInt8) : Except OutOfRange (Option (List UInt8 × List UInt8)) := do
  match bytes.findIdx? (· == ' '.toUInt8) with
  | some place => return some (← bytesBefore bytes place, ← bytesFrom bytes (place + 1))
  | none => return none

/-- The text without the tag of a full or partial line. -/
def afterTag (bytes : List UInt8) : Except OutOfRange (List UInt8) := do
  if bytes.length < 2 then return bytes
  let tag ← byteAt bytes 0
  if tag == 'F'.toUInt8 || tag == 'P'.toUInt8 then
    if (← byteAt bytes 1) == ' '.toUInt8 then bytesFrom bytes 2 else return bytes
  else return bytes

/-- The parts of a line. -/
def read (bytes : List UInt8) : Except OutOfRange (Option CriLine) := do
  if !(← looksStamped bytes) then return none
  let some (time, rest) ← splitAtSpace bytes | return none
  let some timestamp := (Text.decode? time).bind fun s => Time.rfc3339? s.toList | return none
  let some (name, rest) ← splitAtSpace rest | return none
  let some stream := ContainerStream.ofName? name | return none
  return some ⟨timestamp, stream, ← afterTag rest⟩

/-- The parts of a line. There is no line in which reading meets a place that the line does not have. -/
def ofBytes? (bytes : List UInt8) : Option CriLine :=
  match read bytes with
  | .ok found => found
  | .error _ => none

end CriLine

end LegibleLog
