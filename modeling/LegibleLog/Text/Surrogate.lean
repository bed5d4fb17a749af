/-!
# Surrogates

Escapes with four hexadecimal digits reach the characters up to U+FFFF; the others are written as two escapes, a high
and a low surrogate.  `joinSurrogates high low` is the character that such a pair stands for.
-/

namespace LegibleLog.Text

/-- The first half of a pair. -/
def isHighSurrogate (n : Nat) : Bool := 0xD800 ≤ n && n ≤ 0xDBFF

/-- The second half of a pair. -/
def isLowSurrogate (n : Nat) : Bool := 0xDC00 ≤ n && n ≤ 0xDFFF

/-- The character that a pair stands for. -/
def joinSurrogates (high low : Nat) : Char := Char.ofNat (0x10000 + (high - 0xD800) * 0x400 + (low - 0xDC00))

end LegibleLog.Text
