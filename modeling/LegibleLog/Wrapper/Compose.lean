import LegibleLog.Text.Blank
import LegibleLog.Wrapper.Csi

/-!
# Lines of composed services

When several services write to one terminal, each line has the name of its service, blanks and a bar before it.  The
name may be coloured.

* `ComposeLine` — such a line in its parts;
* `ComposeLine.ofBytes? line` — the parts of a line, which are read after all control sequences are out.
-/

namespace LegibleLog

/-- A line with the name of a service before it. -/
structure ComposeLine where
  service : String
  payload : List UInt8

namespace ComposeLine

/-- The bytes that names of services consist of: letters, digits, point, underscore and hyphen. -/
def isNameByte (b : UInt8) : Bool :=
  let c := Char.ofUInt8 b
  c.isAlphanum || c == '.' || c == '_' || c == '-'

/-- The parts of a line without control sequences. -/
def ofPlain? (line : List UInt8) : Option ComposeLine :=
  let name := line.takeWhile isNameByte
  let rest := line.dropWhile isNameByte
  if name.isEmpty || !(rest.head?.any Text.isAsciiBlank) then none
  else
    match rest.dropWhile Text.isAsciiBlank with
    | bar :: space :: payload =>
      if bar == '|'.toUInt8 && space == ' '.toUInt8 && !payload.contains '\n'.toUInt8 then
        some ⟨String.ofList (name.map Char.ofUInt8), payload⟩
      else none
    | _ => none

/-- The parts of a line. -/
def ofBytes? (line : List UInt8) : Option ComposeLine := ofPlain? (Csi.strip line)

end ComposeLine

end LegibleLog
