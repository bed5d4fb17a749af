import LegibleLog.Text.Blank
import LegibleLog.Text.Hex
import LegibleLog.Text.Quoted
import LegibleLog.Text.Surrogate

/-!
# Logfmt records

A record is a row of `key=value` tokens with blanks between them; a value is bare or stands between quotes.

* `Logfmt.decode cs` — the pairs of a record in order, or the first `Error` in it;
* `Logfmt.Error.message` — the wording of an error.
-/

namespace LegibleLog.Logfmt

/-- Why a text is no record. -/
inductive Error where
  | equalsBeforeKey
  | quoteInKey (key : String)
  | bareKey (key : String)
  | textAfterQuotes (key : String)
  | unexpectedInValue (c : Char) (key : String)
  | unterminatedEscape
  | unterminatedValue
  /-- The characters after `\u` are not four hexadecimal digits. -/
  | badDigits (digits : String)
  /-- The number after `\u` is no character and no part of a pair. -/
  | badNumber (n : Nat)
deriving Repr, DecidableEq

/-- The wording of an error. -/
def Error.message : Error → String
  | equalsBeforeKey => "unexpected '=' before key"
  | quoteInKey key => "unexpected '\"' in key " ++ Text.quoted key
  | bareKey key => "bare key " ++ Text.quoted key ++ " without value"
  | textAfterQuotes key => "garbage after quoted value of " ++ Text.quoted key
  | unexpectedInValue c key => "unexpected '" ++ c.toString ++ "' in value of " ++ Text.quoted key
  | unterminatedEscape => "unterminated escape"
  | unterminatedValue => "unterminated quoted value"
  | badDigits digits => "invalid unicode escape \\u" ++ digits
  | badNumber n => "invalid unicode escape \\u" ++ Text.hexPadded 4 n

/-! ### Escapes -/

/-- The number that four characters write in hexadecimal, where a plus sign may stand for the first digit. -/
def hexNumber? : List Char → Option Nat
  | [a, b, c, d] => do
    let first ← if a == '+' then some 0 else Text.hexValue? a
    let n := ((first * 16 + (← Text.hexValue? b)) * 16 + (← Text.hexValue? c)) * 16
    return n + (← Text.hexValue? d)
  | _ => none

/-- The number at the front of a text, in four characters. -/
def readNumber (cs : List Char) : Except Error (Nat × List Char) :=
  match hexNumber? (cs.take 4) with
  | some n => .ok (n, cs.drop 4)
  | none => .error (.badDigits (String.ofList (cs.take 4)))

/-- The character of an escape by number, its `u` taken off: one escape, or two that are a pair of surrogates. -/
def readNumbered (cs : List Char) : Except Error (Char × List Char) :=
  match readNumber cs with
  | .error e => .error e
  | .ok (n, r) =>
    if Text.isHighSurrogate n then
      match r with
      | '\\' :: 'u' :: r =>
        match readNumber r with
        | .error e => .error e
        | .ok (m, r) =>
          if Text.isLowSurrogate m then .ok (Text.joinSurrogates n m, r) else .error (.badNumber m)
      | _ => .error (.badNumber n)
    else if Text.isLowSurrogate n then .error (.badNumber n)
    else .ok (Char.ofNat n, r)

/-- The character of an escape, its backslash taken off; a letter without a meaning of its own stands for itself. -/
def readEscape : List Char → Except Error (Char × List Char)
  | [] => .error .unterminatedEscape
  | 'n' :: r => .ok ('\n', r)
  | 't' :: r => .ok ('\t', r)
  | 'r' :: r => .ok ('\r', r)
  | 'u' :: r => readNumbered r
  | c :: r => .ok (c, r)

/-- What a character stands for after a backslash. -/
def meaning : Char → Char
  | 'n' => '\n'
  | 't' => '\t'
  | 'r' => '\r'
  | c => c

/-- An escape that is not a number is one character. -/
theorem readEscape_of_ne {letter : Char} (h : letter ≠ 'u') (r : List Char) :
    readEscape (letter :: r) = .ok (meaning letter, r) := by
  unfold readEscape meaning
  split
  all_goals simp_all

theorem length_le_of_readNumber {cs r : List Char} {n : Nat} (h : readNumber cs = .ok (n, r)) :
    r.length ≤ cs.length := by
  unfold readNumber at h
  split at h <;> simp at h
  obtain ⟨-, rfl⟩ := h
  simp

theorem length_le_of_readNumbered {cs r : List Char} {c : Char} (h : readNumbered cs = .ok (c, r)) :
    r.length ≤ cs.length := by
  unfold readNumbered at h
  split at h
  · simp at h
  · next n s hs =>
    have hle := length_le_of_readNumber hs
    split at h
    · split at h
      · split at h
        · simp at h
        · next m t ht =>
          have hlow := length_le_of_readNumber ht
          simp only [List.length_cons] at hle
          split at h <;> simp at h
          obtain ⟨-, rfl⟩ := h
          omega
      · simp at h
    · split at h <;> simp at h
      obtain ⟨-, rfl⟩ := h
      exact hle

theorem length_le_of_readEscape {cs r : List Char} {c : Char} (h : readEscape cs = .ok (c, r)) :
    r.length ≤ cs.length := by
  cases cs with
  | nil => cases h
  | cons letter tail =>
    simp only [List.length_cons]
    by_cases hu : letter = 'u'
    · subst hu
      have hle : r.length ≤ tail.length := length_le_of_readNumbered h
      omega
    · rw [readEscape_of_ne hu] at h
      cases h
      omega

/-! ### Tokens -/

/-- A character that may stand in a key or in a bare value. -/
def isBare (c : Char) : Bool := !Text.isBlank c && c != '=' && c != '"'

/-- The rest of a quoted value after its opening quote; `done` holds the characters before, the last one first. -/
def readQuoted (done : List Char) : List Char → Except Error (String × List Char)
  | [] => .error .unterminatedValue
  | '"' :: r => .ok (String.ofList done.reverse, r)
  | '\\' :: r =>
    match _h : readEscape r with
    | .ok (c, rest) => readQuoted (c :: done) rest
    | .error e => .error e
  | c :: r => readQuoted (c :: done) r
termination_by cs => cs.length
decreasing_by
  · have hle := length_le_of_readEscape _h
    simp only [List.length_cons]
    omega
  · simp

/-- The value after the equals sign of `key`. -/
def readValue (key : String) : List Char → Except Error (String × List Char)
  | '"' :: r =>
    match readQuoted [] r with
    | .error e => .error e
    | .ok (value, rest) =>
      match rest with
      | [] => .ok (value, [])
      | c :: _ => if Text.isBlank c then .ok (value, rest) else .error (.textAfterQuotes key)
  | cs =>
    match cs.dropWhile isBare with
    | [] => .ok (String.ofList (cs.takeWhile isBare), [])
    | c :: r =>
      if Text.isBlank c then .ok (String.ofList (cs.takeWhile isBare), c :: r)
      else .error (.unexpectedInValue c key)

/-- The token at the front of a text that has no blank there. -/
def readToken (cs : List Char) : Except Error ((String × String) × List Char) :=
  let key := String.ofList (cs.takeWhile isBare)
  match cs.dropWhile isBare with
  | '=' :: r =>
    if key.isEmpty then .error .equalsBeforeKey
    else
      match readValue key r with
      | .ok (value, rest) => .ok ((key, value), rest)
      | .error e => .error e
  | '"' :: _ => .error (.quoteInKey key)
  | _ => .error (.bareKey key)

theorem length_lt_of_readQuoted {done cs r : List Char} {s : String} (h : readQuoted done cs = .ok (s, r)) :
    r.length < cs.length := by
  fun_induction readQuoted done cs with
  | case1 => simp at h
  | case2 done r' =>
    simp only [Except.ok.injEq, Prod.mk.injEq] at h
    simp [h.2]
  | case3 done r' c rest hc ih =>
    have hescape := length_le_of_readEscape hc
    have hrest := ih h
    simp only [List.length_cons]
    omega
  | case4 => simp at h
  | case5 done c r' _ _ ih =>
    have hrest := ih h
    simp only [List.length_cons]
    omega

theorem length_le_of_readValue {key value : String} {cs r : List Char} (h : readValue key cs = .ok (value, r)) :
    r.length ≤ cs.length := by
  unfold readValue at h
  split at h
  · next s =>
    split at h
    · simp at h
    · next hq =>
      have hlt := length_lt_of_readQuoted hq
      simp only [List.length_cons]
      split at h
      · simp only [Except.ok.injEq, Prod.mk.injEq] at h
        simp [← h.2]
      · split at h <;> simp at h
        obtain ⟨-, rfl⟩ := h
        omega
  · have hle := (List.dropWhile_sublist (l := cs) isBare).length_le
    split at h
    · simp only [Except.ok.injEq, Prod.mk.injEq] at h
      simp [← h.2]
    · next hd =>
      rw [hd] at hle
      split at h <;> simp at h
      obtain ⟨-, rfl⟩ := h
      exact hle

theorem length_lt_of_readToken {cs r : List Char} {pair : String × String} (h : readToken cs = .ok (pair, r)) :
    r.length < cs.length := by
  have hle := (List.dropWhile_sublist (l := cs) isBare).length_le
  unfold readToken at h
  dsimp only at h
  split at h
  · next hd =>
    rw [hd] at hle
    simp only [List.length_cons] at hle
    split at h
    · simp at h
    · split at h
      · next hv =>
        have hvalue := length_le_of_readValue hv
        simp only [Except.ok.injEq, Prod.mk.injEq] at h
        obtain ⟨-, rfl⟩ := h
        omega
      · simp at h
  · simp at h
  · simp at h

/-- The pairs of a record after those in `done`, which are held the last one first. -/
def decodeFrom (done : List (String × String)) (cs : List Char) : Except Error (List (String × String)) :=
  match _hc : Text.trimStart cs with
  | [] => .ok done.reverse
  | c :: r =>
    match _ht : readToken (c :: r) with
    | .error e => .error e
    | .ok (pair, rest) => decodeFrom (pair :: done) rest
termination_by cs.length
decreasing_by
  have hle : (Text.trimStart cs).length ≤ cs.length := (List.dropWhile_sublist Text.isBlank).length_le
  have hlt := length_lt_of_readToken _ht
  rw [_hc] at hle
  omega

/-- The pairs of a record in order. -/
def decode (cs : List Char) : Except Error (List (String × String)) := decodeFrom [] cs

end LegibleLog.Logfmt
