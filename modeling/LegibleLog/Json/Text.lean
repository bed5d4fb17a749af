import LegibleLog.Json.Number
import LegibleLog.Text.Hex
import LegibleLog.Text.Surrogate

/-!
# JSON texts

* `Token.read? cs` — the word at the front of `cs`;
* `tokens? cs` — the words of a text, the blanks between them left out;
* `Token.chars`, `Value.text` — words and values written without blanks.
-/

namespace LegibleLog.Json

/-! ### Writing -/

/-- A character inside a string: quotes, backslashes and control characters are escaped. -/
def escaped (c : Char) : List Char :=
  match c with
  | '"' => ['\\', '"']
  | '\\' => ['\\', '\\']
  | '\x08' => ['\\', 'b']
  | '\x0c' => ['\\', 'f']
  | '\n' => ['\\', 'n']
  | '\r' => ['\\', 'r']
  | '\t' => ['\\', 't']
  | c => if c.toNat < 0x20 then '\\' :: 'u' :: (Text.hexPadded 4 c.toNat).toList else [c]

/-- A scalar as it is written. -/
def Scalar.chars : Scalar → List Char
  | .null => "null".toList
  | .bool b => (if b then "true" else "false").toList
  | .integer n => (toString n).toList
  | .real negative magnitude => (Shortest.text negative magnitude).toList
  | .string s => '"' :: s.toList.flatMap escaped ++ ['"']

/-- A word as it is written. -/
def Token.chars : Token → List Char
  | .openBracket => ['[']
  | .closeBracket => [']']
  | .openBrace => ['{']
  | .closeBrace => ['}']
  | .comma => [',']
  | .colon => [':']
  | .scalar s => s.chars

/-- A value written without blanks. -/
def Value.text (v : Value) : String := String.ofList (v.tokens.flatMap Token.chars)

/-! ### Reading -/

/-- The blanks of JSON. -/
def isBlank (c : Char) : Bool := c == ' ' || c == '\t' || c == '\n' || c == '\r'

/-- Four hexadecimal digits at the front of a text. -/
def readHex4? : List Char → Option (Nat × List Char)
  | a :: b :: c :: d :: r => do
    let n := (((← Text.hexValue? a) * 16 + (← Text.hexValue? b)) * 16 + (← Text.hexValue? c)) * 16
    return (n + (← Text.hexValue? d), r)
  | _ => none

/-- The character of an escape by number, its `u` taken off: one escape, or two that are a pair of surrogates. -/
def readNumbered? (cs : List Char) : Option (Char × List Char) :=
  match readHex4? cs with
  | none => none
  | some (n, r) =>
    if Text.isHighSurrogate n then
      match r with
      | '\\' :: 'u' :: r =>
        match readHex4? r with
        | some (m, r) => if Text.isLowSurrogate m then some (Text.joinSurrogates n m, r) else none
        | none => none
      | _ => none
    else if Text.isLowSurrogate n then none
    else some (Char.ofNat n, r)

/-- The character of an escape, its backslash taken off. -/
def readEscape? : List Char → Option (Char × List Char)
  | '"' :: r => some ('"', r)
  | '\\' :: r => some ('\\', r)
  | '/' :: r => some ('/', r)
  | 'b' :: r => some ('\x08', r)
  | 'f' :: r => some ('\x0c', r)
  | 'n' :: r => some ('\n', r)
  | 'r' :: r => some ('\r', r)
  | 't' :: r => some ('\t', r)
  | 'u' :: r => readNumbered? r
  | _ => none

/-- The letters that stand for characters after a backslash. -/
def escapeLetters : List (Char × Char) :=
  [('"', '"'), ('\\', '\\'), ('/', '/'), ('b', '\x08'), ('f', '\x0c'), ('n', '\n'), ('r', '\r'), ('t', '\t')]

/-- An escape is a letter with a meaning, or a number. -/
theorem readEscape?_cases {cs rest : List Char} {c : Char} (h : readEscape? cs = some (c, rest)) :
    (∃ letter, (letter, c) ∈ escapeLetters ∧ cs = letter :: rest) ∨
      ∃ r, cs = 'u' :: r ∧ readNumbered? r = some (c, rest) := by
  unfold readEscape? at h
  split at h
  all_goals
    first
    | exact .inr ⟨_, rfl, h⟩
    | cases h
      try exact .inl ⟨_, by decide, rfl⟩

theorem length_lt_of_readHex4? {cs r : List Char} {n : Nat} (h : readHex4? cs = some (n, r)) :
    r.length < cs.length := by
  unfold readHex4? at h
  split at h
  · simp only [Option.bind_eq_bind, Option.bind_eq_some_iff, Option.pure_def, Option.some.injEq,
      Prod.mk.injEq] at h
    obtain ⟨_, _, _, _, _, _, _, _, _, rfl⟩ := h
    simp only [List.length_cons]
    omega
  · simp at h

theorem length_lt_of_readNumbered? {cs r : List Char} {c : Char} (h : readNumbered? cs = some (c, r)) :
    r.length < cs.length := by
  unfold readNumbered? at h
  split at h
  · simp at h
  · next n s hs =>
    have hlt := length_lt_of_readHex4? hs
    split at h
    · split at h
      · split at h
        · next m t ht =>
          have hlow := length_lt_of_readHex4? ht
          simp only [List.length_cons] at hlt
          split at h <;> simp at h
          obtain ⟨-, rfl⟩ := h
          omega
        · simp at h
      · simp at h
    · split at h <;> simp at h
      obtain ⟨-, rfl⟩ := h
      exact hlt

theorem length_lt_of_readEscape? {cs r : List Char} {c : Char} (h : readEscape? cs = some (c, r)) :
    r.length < cs.length := by
  obtain ⟨letter, -, rfl⟩ | ⟨r', rfl, hnumber⟩ := readEscape?_cases h
  · simp
  · have hlt := length_lt_of_readNumbered? hnumber
    simp only [List.length_cons]
    omega

/-- The rest of a string after its opening quote; `done` holds the characters before, the last one first. -/
def readString? (done : List Char) : List Char → Option (String × List Char)
  | [] => none
  | '"' :: r => some (String.ofList done.reverse, r)
  | '\\' :: r =>
    match _h : readEscape? r with
    | some (c, rest) => readString? (c :: done) rest
    | none => none
  | c :: r => if c.toNat < 0x20 then none else readString? (c :: done) r
termination_by cs => cs.length
decreasing_by
  · have hlt := length_lt_of_readEscape? _h
    simp only [List.length_cons]
    omega
  · simp

/-- The word at the front of a text that has no blank there. -/
def Token.read? : List Char → Option (Token × List Char)
  | '[' :: r => some (.openBracket, r)
  | ']' :: r => some (.closeBracket, r)
  | '{' :: r => some (.openBrace, r)
  | '}' :: r => some (.closeBrace, r)
  | ',' :: r => some (.comma, r)
  | ':' :: r => some (.colon, r)
  | '"' :: r => (readString? [] r).map fun (s, r) => (.scalar (.string s), r)
  | 'n' :: 'u' :: 'l' :: 'l' :: r => some (.scalar .null, r)
  | 't' :: 'r' :: 'u' :: 'e' :: r => some (.scalar (.bool true), r)
  | 'f' :: 'a' :: 'l' :: 's' :: 'e' :: r => some (.scalar (.bool false), r)
  | cs => (readNumber? cs).map fun (s, r) => (.scalar s, r)

/-- The words that always look the same. -/
def fixedWords : List (List Char × Token) :=
  [(['['], .openBracket), ([']'], .closeBracket), (['{'], .openBrace), (['}'], .closeBrace), ([','], .comma),
    ([':'], .colon), (['n', 'u', 'l', 'l'], .scalar .null), (['t', 'r', 'u', 'e'], .scalar (.bool true)),
    (['f', 'a', 'l', 's', 'e'], .scalar (.bool false))]

/-- A word always looks the same, or it is a string or a number. -/
theorem Token.read?_cases {cs rest : List Char} {t : Token} (h : Token.read? cs = some (t, rest)) :
    (∃ w, (w, t) ∈ fixedWords ∧ cs = w ++ rest) ∨
      (∃ r s, cs = '"' :: r ∧ readString? [] r = some (s, rest) ∧ t = .scalar (.string s)) ∨
      ∃ s, readNumber? cs = some (s, rest) ∧ t = .scalar s := by
  unfold Token.read? at h
  split at h
  -- strings and numbers are read by readers of their own, and each other word stands in the table
  all_goals
    first
    | cases h
      exact .inl (by simp [fixedWords])
    | obtain ⟨⟨s, r⟩, hs, heq⟩ := Option.map_eq_some_iff.mp h
      cases heq
      first
      | exact .inr (.inl ⟨_, s, rfl, hs, rfl⟩)
      | exact .inr (.inr ⟨s, hs, rfl⟩)

theorem length_lt_of_readString? {done cs r : List Char} {s : String} (h : readString? done cs = some (s, r)) :
    r.length < cs.length := by
  fun_induction readString? done cs with
  | case1 => simp at h
  | case2 done r' =>
    simp only [Option.some.injEq, Prod.mk.injEq] at h
    simp [h.2]
  | case3 done r' c rest hc ih =>
    have hescape := length_lt_of_readEscape? hc
    have hrest := ih h
    simp only [List.length_cons]
    omega
  | case4 => simp at h
  | case5 => simp at h
  | case6 done c r' _ _ _ ih =>
    have hrest := ih h
    simp only [List.length_cons]
    omega

theorem Token.length_lt_of_read? {cs r : List Char} {t : Token} (h : Token.read? cs = some (t, r)) :
    r.length < cs.length := by
  obtain ⟨w, hw, rfl⟩ | ⟨r', s, rfl, hs, -⟩ | ⟨s, hs, -⟩ := Token.read?_cases h
  · have hpos : 0 < w.length := by
      have hwords : ∀ p ∈ fixedWords, 0 < p.1.length := by simp [fixedWords]
      exact hwords _ hw
    rw [List.length_append]
    omega
  · have hlt := length_lt_of_readString? hs
    simp only [List.length_cons]
    omega
  · exact length_lt_of_readNumber? hs

/-- The words of a text after those in `done`, which are held the last one first. -/
def tokensFrom? (done : List Token) (cs : List Char) : Option (List Token) :=
  match _hc : cs.dropWhile isBlank with
  | [] => some done.reverse
  | c :: r =>
    match _ht : Token.read? (c :: r) with
    | some (t, rest) => tokensFrom? (t :: done) rest
    | none => none
termination_by cs.length
decreasing_by
  have hle := (List.dropWhile_sublist (l := cs) isBlank).length_le
  have hlt := Token.length_lt_of_read? _ht
  rw [_hc] at hle
  omega

/-- The words of a text. -/
def tokens? (cs : List Char) : Option (List Token) := tokensFrom? [] cs

end LegibleLog.Json
