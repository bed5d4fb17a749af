import LegibleLog.Text.Hex
import LegibleLog.Text.Hidden

/-!
# Quoted texts

`quoted s` is `s` between double quotes as messages show it: quotes and backslashes are escaped, the usual control
characters have letters, and a character that leaves no mark of its own is written by its number.
-/

namespace LegibleLog.Text

/-- A character as it stands between double quotes. -/
def quotedChar (c : Char) : String :=
  match c with
  | '\x00' => "\\0"
  | '\t' => "\\t"
  | '\r' => "\\r"
  | '\n' => "\\n"
  | '"' => "\\\""
  | '\\' => "\\\\"
  | c => if isHidden c then "\\u\x7b" ++ hexDigits c.toNat ++ "\x7d" else c.toString

/-- A text between double quotes. -/
def quoted (s : String) : String := "\"" ++ String.join (s.toList.map quotedChar) ++ "\""

end LegibleLog.Text
