import LegibleLog.Logfmt

/-!
# The grammar of logfmt records

Records as they are written, without any reader.

* `Spelling` — the ways to write one character of a quoted value;
* `Written`, `Token`, `Row` — values, tokens and whole records; `text` is how each of them looks, `Legal` says what the
  grammar allows, and `Row.pairs` is what a record says;
* `fourDigits?` — the numbers of escapes: four hexadecimal digits.

Which four characters write a number is a parameter `number?` of the grammar. The grammar proper takes `fourDigits?`;
`hexNumber?` also takes a plus sign and three digits, and `Spelling.IsSigned` tells the escapes that it takes alone.
-/

namespace LegibleLog.Logfmt

/-- The number that four hexadecimal digits write. -/
def fourDigits? : List Char → Option Nat
  | [a, b, c, d] => do
    let n := (((← Text.hexValue? a) * 16 + (← Text.hexValue? b)) * 16 + (← Text.hexValue? c)) * 16
    return n + (← Text.hexValue? d)
  | _ => none

/-! ### Characters of quoted values -/

/-- How one character of a quoted value is written. -/
inductive Spelling where
  /-- As itself. -/
  | plain (c : Char)
  /-- As a character after a backslash. -/
  | escape (c : Char)
  /-- By its number, the characters after `\u`. -/
  | number (digits : List Char)
  /-- By the numbers of a pair of surrogates. -/
  | pair (high low : List Char)

namespace Spelling

/-- How a spelling looks. -/
def text : Spelling → List Char
  | plain c => [c]
  | escape c => ['\\', c]
  | number ds => '\\' :: 'u' :: ds
  | pair hs ls => '\\' :: 'u' :: hs ++ '\\' :: 'u' :: ls

/-- What the grammar allows: a character other than a quote and a backslash, any character but `u` after a backslash,
the number of a character, or a high and a low surrogate. -/
def Legal (number? : List Char → Option Nat) : Spelling → Prop
  | plain c => c ≠ '"' ∧ c ≠ '\\'
  | escape c => c ≠ 'u'
  | number ds => ∃ n, number? ds = some n ∧ n.isValidChar
  | pair hs ls =>
    ∃ h l, number? hs = some h ∧ number? ls = some l ∧ Text.isHighSurrogate h = true ∧ Text.isLowSurrogate l = true

/-- The character that a spelling stands for. -/
def char (number? : List Char → Option Nat) : Spelling → Char
  | plain c => c
  | escape c => meaning c
  | number ds => Char.ofNat ((number? ds).getD 0)
  | pair hs ls => Text.joinSurrogates ((number? hs).getD 0) ((number? ls).getD 0)

/-- A plus sign stands for the first digit of a number. -/
def IsSigned : Spelling → Prop
  | plain _ => False
  | escape _ => False
  | number ds => ds.head? = some '+'
  | pair hs ls => hs.head? = some '+' ∨ ls.head? = some '+'

end Spelling

/-! ### Values and tokens -/

/-- How a value is written. -/
inductive Written where
  | bare (cs : List Char)
  | quoted (items : List Spelling)

namespace Written

/-- How a value looks. -/
def text : Written → List Char
  | bare cs => cs
  | quoted items => '"' :: (items.flatMap Spelling.text ++ ['"'])

/-- The spellings between the quotes of a value. -/
def spellings : Written → List Spelling
  | bare _ => []
  | quoted items => items

/-- A bare value has no blank, no equals sign and no quote; a quoted one is a row of spellings. -/
def Legal (number? : List Char → Option Nat) : Written → Prop
  | bare cs => ∀ c ∈ cs, isBare c = true
  | quoted items => ∀ s ∈ items, s.Legal number?

/-- The text that a value stands for. -/
def value (number? : List Char → Option Nat) : Written → String
  | bare cs => String.ofList cs
  | quoted items => String.ofList (items.map (Spelling.char number?))

end Written

/-- How a pair is written. -/
structure Token where
  key : List Char
  value : Written

namespace Token

/-- How a token looks. -/
def text (t : Token) : List Char := t.key ++ '=' :: t.value.text

/-- A token has a key without blanks, equals signs and quotes. -/
structure Legal (number? : List Char → Option Nat) (t : Token) : Prop where
  key_ne_nil : t.key ≠ []
  key_bare : ∀ c ∈ t.key, isBare c = true
  value_legal : t.value.Legal number?

/-- The pair that a token stands for. -/
def pair (number? : List Char → Option Nat) (t : Token) : String × String :=
  (String.ofList t.key, t.value.value number?)

end Token

/-! ### Records -/

/-- How a record is written: its tokens, each with the blanks before it, and the blanks after the last one. -/
structure Row where
  tokens : List (List Char × Token)
  after : List Char

namespace Row

/-- How a record looks. -/
def text (row : Row) : List Char := row.tokens.flatMap (fun p => p.1 ++ p.2.text) ++ row.after

/-- The spellings in the quoted values of a record. -/
def spellings (row : Row) : List Spelling := row.tokens.flatMap fun p => p.2.value.spellings

/-- Blanks may stand around tokens, and at least one stands between two of them. -/
structure Legal (number? : List Char → Option Nat) (row : Row) : Prop where
  tokens : ∀ p ∈ row.tokens, (∀ c ∈ p.1, Text.isBlank c = true) ∧ p.2.Legal number?
  apart : ∀ p ∈ row.tokens.tail, p.1 ≠ []
  after : ∀ c ∈ row.after, Text.isBlank c = true

/-- The pairs of a record in order. -/
def pairs (number? : List Char → Option Nat) (row : Row) : List (String × String) :=
  row.tokens.map fun p => p.2.pair number?

end Row

end LegibleLog.Logfmt
