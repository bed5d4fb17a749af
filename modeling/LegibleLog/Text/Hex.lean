/-!
# Hexadecimal digits

* `hexValue? c` — the value of a hexadecimal digit, in either case;
* `hexDigits n`, `hexPadded width n` — `n` in lower-case digits, and filled up with zeros to a width.
-/

namespace LegibleLog.Text

/-- The value of a hexadecimal digit, in either case. -/
def hexValue? (c : Char) : Option Nat :=
  if '0' ≤ c ∧ c ≤ '9' then some (c.toNat - '0'.toNat)
  else if 'a' ≤ c ∧ c ≤ 'f' then some (c.toNat - 'a'.toNat + 10)
  else if 'A' ≤ c ∧ c ≤ 'F' then some (c.toNat - 'A'.toNat + 10)
  else none

/-- A number in lower-case hexadecimal digits. -/
def hexDigits (n : Nat) : String := String.ofList (Nat.toDigits 16 n)

/-- A text filled up on the left to a width. -/
def padLeft (fill : Char) (width : Nat) (s : String) : String :=
  String.ofList (List.replicate (width - s.length) fill) ++ s

/-- A number in at least `width` lower-case hexadecimal digits. -/
def hexPadded (width n : Nat) : String := padLeft '0' width (hexDigits n)

end LegibleLog.Text
