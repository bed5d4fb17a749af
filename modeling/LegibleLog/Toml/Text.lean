import LegibleLog.Text.Hex

/-!
# Strings of TOML

* `readBasic?`, `readLongBasic?` — the rest of a string with escapes, on one line or on several;
* `readLiteral?`, `readLongLiteral?` — the rest of a string without escapes;
* `readText?` — a string of any of the four kinds.
-/

namespace LegibleLog.Toml

/-- A character that may stand in a comment and, quotes and backslashes aside, in a string: a tab, or one that is no
control character. -/
def isPlain (c : Char) : Bool := c == '\t' || (0x20 ≤ c.toNat && c.toNat ≠ 0x7F)

/-- A space or a tab. -/
def isSpace (c : Char) : Bool := c == ' ' || c == '\t'

/-! ### Escapes -/

/-- A number in the given count of hexadecimal digits, which goes on from `n`. -/
def readHex? (n : Nat) : Nat → List Char → Option (Nat × List Char)
  | 0, cs => some (n, cs)
  | count + 1, c :: r =>
    match Text.hexValue? c with
    | some d => readHex? (16 * n + d) count r
    | none => none
  | _ + 1, [] => none

/-- The character with a number in the given count of hexadecimal digits. -/
def readNumbered? (count : Nat) (cs : List Char) : Option (Char × List Char) :=
  match readHex? 0 count cs with
  | some (n, r) => if n.isValidChar then some (Char.ofNat n, r) else none
  | none => none

/-- The character of an escape, its backslash taken off. -/
def readEscape? : List Char → Option (Char × List Char)
  | 'b' :: r => some ('\x08', r)
  | 't' :: r => some ('\t', r)
  | 'n' :: r => some ('\n', r)
  | 'f' :: r => some ('\x0c', r)
  | 'r' :: r => some ('\r', r)
  | 'e' :: r => some ('\x1b', r)
  | '"' :: r => some ('"', r)
  | '\\' :: r => some ('\\', r)
  | 'x' :: r => readNumbered? 2 r
  | 'u' :: r => readNumbered? 4 r
  | 'U' :: r => readNumbered? 8 r
  | _ => none

/-- An escape is a letter, and in some cases a number after it. -/
theorem readEscape?_cases {cs rest : List Char} {c : Char} (h : readEscape? cs = some (c, rest)) :
    ∃ letter r, cs = letter :: r ∧ (r = rest ∨ ∃ count, readNumbered? count r = some (c, rest)) := by
  unfold readEscape? at h
  split at h
  all_goals
    first
    | exact ⟨_, _, rfl, .inr ⟨_, h⟩⟩
    | cases h
      try exact ⟨_, _, rfl, .inl rfl⟩

theorem length_le_of_readHex? {n count m : Nat} {cs r : List Char} (h : readHex? n count cs = some (m, r)) :
    r.length ≤ cs.length := by
  fun_induction readHex? n count cs with
  | case1 =>
    simp only [Option.some.injEq, Prod.mk.injEq] at h
    simp [h.2]
  | case2 n count c r' d hd ih =>
    have hrest := ih h
    simp only [List.length_cons]
    omega
  | case3 => simp at h
  | case4 => simp at h

theorem length_le_of_readNumbered? {count : Nat} {c : Char} {cs r : List Char}
    (h : readNumbered? count cs = some (c, r)) : r.length ≤ cs.length := by
  unfold readNumbered? at h
  split at h
  · next hr =>
    split at h <;> simp at h
    obtain ⟨-, rfl⟩ := h
    exact length_le_of_readHex? hr
  · simp at h

theorem length_lt_of_readEscape? {cs r : List Char} {c : Char} (h : readEscape? cs = some (c, r)) :
    r.length < cs.length := by
  obtain ⟨letter, r', rfl, rfl | ⟨count, hnumber⟩⟩ := readEscape?_cases h
  · simp
  · have hle := length_le_of_readNumbered? hnumber
    simp only [List.length_cons]
    omega

/-! ### Strings on one line -/

/-- The rest of a string with escapes; `done` holds the characters before, the last one first. -/
def readBasic? (done : List Char) : List Char → Option (String × List Char)
  | [] => none
  | '"' :: r => some (String.ofList done.reverse, r)
  | '\\' :: r =>
    match _h : readEscape? r with
    | some (c, rest) => readBasic? (c :: done) rest
    | none => none
  | c :: r => if isPlain c then readBasic? (c :: done) r else none
termination_by cs => cs.length
decreasing_by
  · have hlt := length_lt_of_readEscape? _h
    simp only [List.length_cons]
    omega
  · simp

/-- The rest of a string without escapes. -/
def readLiteral? (done : List Char) : List Char → Option (String × List Char)
  | [] => none
  | '\'' :: r => some (String.ofList done.reverse, r)
  | c :: r => if isPlain c then readLiteral? (c :: done) r else none

/-! ### Strings on several lines -/

/-- A text without the line end at its front. -/
def skipLineEnd : List Char → List Char
  | '\n' :: r => r
  | '\r' :: '\n' :: r => r
  | r => r

/-- The text after spaces and line ends. -/
def skipBlanks : List Char → List Char
  | '\r' :: '\n' :: r => skipBlanks r
  | c :: r => if isSpace c || c == '\n' then skipBlanks r else c :: r
  | [] => []

/-- The text after spaces, a line end and all blanks that follow: what a backslash at the end of a line joins. -/
def afterBreak? (cs : List Char) : Option (List Char) :=
  match cs.dropWhile isSpace with
  | '\n' :: r => some (skipBlanks r)
  | '\r' :: '\n' :: r => some (skipBlanks r)
  | _ => none

/-- The quotes that belong to a string when three quotes end it and more may follow, and the text after the last. -/
def extraQuotes (quote : Char) : List Char → List Char × List Char
  | a :: b :: r => if a == quote then (if b == quote then ([a, b], r) else ([a], b :: r)) else ([], a :: b :: r)
  | [a] => if a == quote then ([a], []) else ([], [a])
  | [] => ([], [])

theorem length_skipBlanks_le (cs : List Char) : (skipBlanks cs).length ≤ cs.length := by
  fun_induction skipBlanks cs with
  | case1 r ih =>
    simp only [List.length_cons]
    omega
  | case2 c r _ _ ih =>
    simp only [List.length_cons]
    omega
  | case3 => simp
  | case4 => simp

theorem length_lt_of_afterBreak? {cs r : List Char} (h : afterBreak? cs = some r) : r.length < cs.length := by
  have hs := (List.dropWhile_sublist (l := cs) isSpace).length_le
  unfold afterBreak? at h
  split at h
  · next s hd =>
    simp only [Option.some.injEq] at h
    subst h
    rw [hd, List.length_cons] at hs
    have hblanks := length_skipBlanks_le s
    omega
  · next s hd =>
    simp only [Option.some.injEq] at h
    subst h
    rw [hd] at hs
    simp only [List.length_cons] at hs
    have hblanks := length_skipBlanks_le s
    omega
  · simp at h

/-- The rest of a string with escapes that may go over several lines. -/
def readLongBasic? (done : List Char) : List Char → Option (String × List Char)
  | [] => none
  | '"' :: '"' :: '"' :: r =>
    let (quotes, rest) := extraQuotes '"' r
    some (String.ofList (quotes ++ done).reverse, rest)
  | '\\' :: r =>
    match _hb : afterBreak? r with
    | some rest => readLongBasic? done rest
    | none =>
      match _he : readEscape? r with
      | some (c, rest) => readLongBasic? (c :: done) rest
      | none => none
  | '\r' :: '\n' :: r => readLongBasic? ('\n' :: '\r' :: done) r
  | c :: r => if isPlain c || c == '\n' then readLongBasic? (c :: done) r else none
termination_by cs => cs.length
decreasing_by
  · have hlt := length_lt_of_afterBreak? _hb
    simp only [List.length_cons]
    omega
  · have hlt := length_lt_of_readEscape? _he
    simp only [List.length_cons]
    omega
  · simp only [List.length_cons]
    omega
  · simp

/-- The rest of a string without escapes that may go over several lines. -/
def readLongLiteral? (done : List Char) : List Char → Option (String × List Char)
  | [] => none
  | '\'' :: '\'' :: '\'' :: r =>
    let (quotes, rest) := extraQuotes '\'' r
    some (String.ofList (quotes ++ done).reverse, rest)
  | '\r' :: '\n' :: r => readLongLiteral? ('\n' :: '\r' :: done) r
  | c :: r => if isPlain c || c == '\n' then readLongLiteral? (c :: done) r else none

/-- The string at the front of a text. -/
def readText? : List Char → Option (String × List Char)
  | '"' :: '"' :: '"' :: r => readLongBasic? [] (skipLineEnd r)
  | '\'' :: '\'' :: '\'' :: r => readLongLiteral? [] (skipLineEnd r)
  | '"' :: r => readBasic? [] r
  | '\'' :: r => readLiteral? [] r
  | _ => none

end LegibleLog.Toml
