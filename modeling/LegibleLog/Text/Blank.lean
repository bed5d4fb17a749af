/-!
# Blank characters

* `isBlank c` — `c` has the Unicode property White_Space;
* `trim`, `trimStart` — a text without the blanks at its ends;
* `isAsciiBlank b` — the byte `b` is one of the six ASCII blanks, and `isFeedBlank b` of the five that are not the
  vertical tab.
-/

namespace LegibleLog.Text

/-- The characters with the Unicode property White_Space. -/
def isBlank (c : Char) : Bool :=
  let n := c.val
  (0x09 ≤ n && n ≤ 0x0D) || n == 0x20 || n == 0x85 || n == 0xA0 || n == 0x1680 ||
    (0x2000 ≤ n && n ≤ 0x200A) || n == 0x2028 || n == 0x2029 || n == 0x202F || n == 0x205F || n == 0x3000

/-- A text from its first character that is not blank. -/
def trimStart (cs : List Char) : List Char := cs.dropWhile isBlank

/-- A text without the blanks at its two ends. -/
def trim (cs : List Char) : List Char := ((trimStart cs).reverse.dropWhile isBlank).reverse

/-- The ASCII blanks as bytes: tab, line feed, vertical tab, form feed, carriage return, space. -/
def isAsciiBlank (b : UInt8) : Bool := (0x09 ≤ b && b ≤ 0x0D) || b == 0x20

/-- The ASCII blanks without the vertical tab. -/
def isFeedBlank (b : UInt8) : Bool := isAsciiBlank b && b != 0x0B

/-- A text with the ASCII letters `A` to `Z` in lower case. -/
def asciiLower (cs : List Char) : List Char := cs.map Char.toLower

end LegibleLog.Text
