import LegibleLog.Text.Utf8

/-!
# The tag of relayed records

Some relays put a tag in front of a structured record.  `Cee.strip line` is the line without it.
-/

namespace LegibleLog.Cee

/-- The tag. -/
def tag : List UInt8 := Text.encode "@cee: "

/-- The line without the tag at its front. -/
def strip (line : List UInt8) : List UInt8 := if tag.isPrefixOf line then line.drop tag.length else line

end LegibleLog.Cee
