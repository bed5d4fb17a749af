import LegibleLog.Proofs.Json.Rebuilt
import LegibleLog.Proofs.Logfmt.Spellings
import Mathlib.Data.List.Forall2

/-!
# Every spelling of an object of texts

The ways to write a JSON object whose members are all strings, and that all of them are read back.

* `Spells c w` — the characters `w` write the character `c` within a string;
* `spells_escaped`, `wordText_string` — how the writer writes them is among these ways;
* `WordText t w`, `Words ts cs` — how a brace, a comma, a colon and a string are written, and words with blanks before,
  between and after them;
* `objectWords members` — the words of an object with these members, keys may occur more than once;
* `Denotes cs fields` — a text is such an object, the last member of each key making up `fields`;
* `ofText?_of_denotes` — the reader takes it for this object.
-/

namespace LegibleLog.Json

open Logfmt (fourDigits?)

/-! ### Characters of strings -/

/-- The ways to write a character in a string: as it stands, unless it is a control character, a quote or a backslash;
by a letter after a backslash; by its number in four digits; or by the numbers of its two halves. -/
inductive Spells : Char → List Char → Prop where
  | plain {c : Char} (hc : 0x20 ≤ c.toNat) (hquote : c ≠ '"') (hback : c ≠ '\\') : Spells c [c]
  | letter {letter c : Char} (h : (letter, c) ∈ escapeLetters) : Spells c ['\\', letter]
  | number {c : Char} {ds : List Char} (hds : fourDigits? ds = some c.toNat) : Spells c ('\\' :: 'u' :: ds)
  | pair {c : Char} {hs ls : List Char} (hc : 0x10000 ≤ c.toNat) (hhs : fourDigits? hs = some (Text.highHalf c))
    (hls : fourDigits? ls = some (Text.lowHalf c)) : Spells c ('\\' :: 'u' :: (hs ++ '\\' :: 'u' :: ls))

theorem toList_hexPadded (width n : Nat) : (Text.hexPadded width n).toList =
    List.replicate (width - (Nat.toDigits 16 n).length) '0' ++ Nat.toDigits 16 n := by
  simp [Text.hexPadded, Text.padLeft, Text.hexDigits]

/-- How a character is written is one of its spellings. -/
theorem spells_escaped (c : Char) : Spells c (escaped c) := by
  have hcontrol : ∀ n < 0x20,
      Logfmt.fourDigits? (List.replicate (4 - (Nat.toDigits 16 n).length) '0' ++ Nat.toDigits 16 n) = some n := by
    decide
  unfold escaped
  split
  all_goals try exact .letter (by decide)
  next hquote hback _ _ _ _ _ =>
    split
    · next hc =>
      refine .number ?_
      rw [toList_hexPadded, hcontrol c.toNat hc]
    · next hc => exact .plain (Nat.not_lt.mp hc) hquote hback

theorem readHex4?_append {ds : List Char} {n : Nat} (h : fourDigits? ds = some n) (rest : List Char) :
    readHex4? (ds ++ rest) = some (n, rest) := by
  unfold Logfmt.fourDigits? at h
  split at h
  · simp only [Option.bind_eq_bind, Option.bind_eq_some_iff, Option.pure_def, Option.some.injEq] at h
    obtain ⟨a, ha, b, hb, c, hc, d, hd, rfl⟩ := h
    simp [readHex4?, ha, hb, hc, hd]
  · cases h

/-- A character is not a surrogate. -/
theorem not_isSurrogate (c : Char) : Text.isHighSurrogate c.toNat = false ∧ Text.isLowSurrogate c.toNat = false := by
  have hvalid : c.toNat.isValidChar := c.valid
  simp only [Nat.isValidChar] at hvalid
  simp only [Text.isHighSurrogate, Text.isLowSurrogate, Bool.and_eq_false_iff, decide_eq_false_iff_not]
  omega

theorem readNumbered?_number {ds : List Char} {c : Char} (h : fourDigits? ds = some c.toNat) (rest : List Char) :
    readNumbered? (ds ++ rest) = some (c, rest) := by
  obtain ⟨hhigh, hlow⟩ := not_isSurrogate c
  simp [readNumbered?, readHex4?_append h, hhigh, hlow, Char.ofNat_toNat]

theorem readNumbered?_pair {hs ls : List Char} {c : Char} (hc : 0x10000 ≤ c.toNat)
    (hhs : fourDigits? hs = some (Text.highHalf c)) (hls : fourDigits? ls = some (Text.lowHalf c)) (rest : List Char) :
    readNumbered? (hs ++ '\\' :: 'u' :: (ls ++ rest)) = some (c, rest) := by
  simp [readNumbered?, readHex4?_append hhs, readHex4?_append hls, Text.isHighSurrogate_highHalf,
    Text.isLowSurrogate_lowHalf, Text.joinSurrogates_halves hc]

theorem readEscape?_letter {letter c : Char} (h : (letter, c) ∈ escapeLetters) (rest : List Char) :
    readEscape? (letter :: rest) = some (c, rest) := by
  simp only [escapeLetters, List.mem_cons, Prod.mk.injEq, List.not_mem_nil, or_false] at h
  rcases h with ⟨rfl, rfl⟩ | ⟨rfl, rfl⟩ | ⟨rfl, rfl⟩ | ⟨rfl, rfl⟩ | ⟨rfl, rfl⟩ | ⟨rfl, rfl⟩ | ⟨rfl, rfl⟩ | ⟨rfl, rfl⟩ <;>
    rfl

theorem readString?_escape {done cs rest : List Char} {c : Char} (h : readEscape? cs = some (c, rest)) :
    readString? done ('\\' :: cs) = readString? (c :: done) rest := by
  rw [readString?]
  split
  · next hread =>
    rw [h] at hread
    cases hread
    rfl
  · next hread =>
    rw [h] at hread
    cases hread

/-- One spelling is read as its character, whatever follows. -/
theorem Spells.readString?_append {c : Char} {w : List Char} (h : Spells c w) (done rest : List Char) :
    readString? done (w ++ rest) = readString? (c :: done) rest := by
  cases h with
  | plain hc hquote hback =>
    rw [List.singleton_append, readString?, if_neg (Nat.not_lt.mpr hc)]
    · exact hquote
    · exact hback
  | letter h => exact readString?_escape (readEscape?_letter h rest)
  | number hds => exact readString?_escape (readNumbered?_number hds rest)
  | @pair _ hs ls hc hhs hls =>
    have hread : readEscape? ('u' :: (hs ++ '\\' :: 'u' :: (ls ++ rest))) = some (c, rest) :=
      readNumbered?_pair hc hhs hls rest
    have hstring : readString? done ('\\' :: 'u' :: (hs ++ '\\' :: 'u' :: (ls ++ rest))) =
        readString? (c :: done) rest := readString?_escape hread
    simpa using hstring

/-- **All spellings of a string** are read as this string, up to the quote that follows them. -/
theorem readString?_spells {cs : List Char} {parts : List (List Char)} (h : List.Forall₂ Spells cs parts)
    (done rest : List Char) :
    readString? done (parts.flatten ++ '"' :: rest) = some (String.ofList (done.reverse ++ cs), rest) := by
  induction h generalizing done with
  | nil => simp [readString?]
  | cons hfirst _ ih => simp [hfirst.readString?_append, ih]

/-! ### Words -/

/-- How the words of an object of strings are written. -/
inductive WordText : Token → List Char → Prop where
  | openBrace : WordText .openBrace ['\x7b']
  | closeBrace : WordText .closeBrace ['\x7d']
  | comma : WordText .comma [',']
  | colon : WordText .colon [':']
  | string {s : String} {parts : List (List Char)} (h : List.Forall₂ Spells s.toList parts) :
    WordText (.scalar (.string s)) ('"' :: (parts.flatten ++ ['"']))

/-- Words as they are written, with blanks before, between and after them. -/
inductive Words : List Token → List Char → Prop where
  | nil {blanks : List Char} (hblanks : ∀ c ∈ blanks, isBlank c = true) : Words [] blanks
  | cons {blanks w rest : List Char} {t : Token} {ts : List Token} (hblanks : ∀ c ∈ blanks, isBlank c = true)
    (hword : WordText t w) (hrest : Words ts rest) : Words (t :: ts) (blanks ++ (w ++ rest))

theorem wordText_string (s : String) : WordText (.scalar (.string s)) (Scalar.string s).chars := by
  have hparts : List.Forall₂ Spells s.toList (s.toList.map escaped) := by
    rw [List.forall₂_map_right_iff, List.forall₂_same]
    exact fun c _ => spells_escaped c
  exact .string hparts

theorem exists_words {ts : List Token} (h : ∀ t ∈ ts, ∃ w, WordText t w) : ∃ cs, Words ts cs := by
  induction ts with
  | nil => exact ⟨[], .nil (List.forall_mem_nil _)⟩
  | cons t ts ih =>
    obtain ⟨⟨w, hw⟩, hts⟩ := List.forall_mem_cons.mp h
    obtain ⟨cs, hcs⟩ := ih hts
    exact ⟨_, .cons (List.forall_mem_nil _) hw hcs⟩

/-- A word begins with a character that is not blank, and is read up to its end, whatever follows. -/
theorem WordText.read?_append {t : Token} {w : List Char} (h : WordText t w) (rest : List Char) :
    Token.read? (w ++ rest) = some (t, rest) ∧ ∃ c r, w = c :: r ∧ isBlank c = false := by
  cases h with
  | string h =>
    refine ⟨?_, _, _, rfl, by decide⟩
    have hread := readString?_spells h [] rest
    simp [Token.read?, hread]
  | _ => exact ⟨rfl, _, _, rfl, by decide⟩

theorem Words.tokens?_eq {ts : List Token} {cs : List Char} (h : Words ts cs) : tokens? cs = some ts := by
  induction h with
  | nil hblanks => exact tokens?_eq_nil (List.dropWhile_eq_nil_iff.mpr hblanks)
  | @cons blanks w rest t ts hblanks hword hrest ih =>
    obtain ⟨hread, c, r, rfl, hc⟩ := hword.read?_append rest
    have hdrop : (c :: r ++ rest).dropWhile isBlank = c :: (r ++ rest) :=
      List.dropWhile_cons_of_neg (by simp [hc])
    rw [tokens?_blanks_append hblanks, tokens?_of_cons hdrop, ← List.cons_append, hread, Option.bind_some, ih]
    rfl

/-! ### Objects -/

/-- The words of the members after the first one, and of the end of the object. -/
def moreWords : List (String × String) → List Token
  | [] => [.closeBrace]
  | (key, value) :: more =>
    .comma :: .scalar (.string key) :: .colon :: .scalar (.string value) :: moreWords more

/-- The words of an object whose members are strings. -/
def objectWords : List (String × String) → List Token
  | [] => [.openBrace, .closeBrace]
  | (key, value) :: more =>
    .openBrace :: .scalar (.string key) :: .colon :: .scalar (.string value) :: moreWords more

/-- A member whose value is a string. -/
def textMember (member : String × String) : String × Value := (member.1, .scalar (.string member.2))

theorem exists_wordText_of_mem_moreWords (members : List (String × String)) :
    ∀ t ∈ moreWords members, ∃ w, WordText t w := by
  induction members with
  | nil => exact List.forall_mem_singleton.mpr ⟨_, .closeBrace⟩
  | cons member more ih =>
    simp only [moreWords, List.forall_mem_cons]
    exact ⟨⟨_, .comma⟩, ⟨_, wordText_string _⟩, ⟨_, .colon⟩, ⟨_, wordText_string _⟩, ih⟩

theorem exists_wordText_of_mem_objectWords (members : List (String × String)) :
    ∀ t ∈ objectWords members, ∃ w, WordText t w := by
  cases members with
  | nil => exact List.forall_mem_cons.mpr ⟨⟨_, .openBrace⟩, List.forall_mem_singleton.mpr ⟨_, .closeBrace⟩⟩
  | cons member more =>
    simp only [objectWords, List.forall_mem_cons]
    exact ⟨⟨_, .openBrace⟩, ⟨_, wordText_string _⟩, ⟨_, .colon⟩, ⟨_, wordText_string _⟩,
      exists_wordText_of_mem_moreWords more⟩

theorem moreWords_eq (members : List (String × String)) :
    moreWords members = (members.map textMember).flatMap Value.memberWords ++ [.closeBrace] := by
  induction members with
  | nil => rfl
  | cons member more ih =>
    rw [moreWords, ih]
    rfl

theorem objectWords_eq (members : List (String × String)) :
    objectWords members = (Value.object (members.map textMember)).tokens := by
  cases members with
  | nil => rfl
  | cons member more =>
    rw [objectWords, moreWords_eq, List.map_cons, Value.tokens_object_cons]
    rfl

/-- **Objects of strings** are built from their words, the last member of a key counting. -/
theorem ofTokens?_objectWords (members : List (String × String)) :
    Value.ofTokens? (objectWords members) = some (.object (byKey (members.map textMember))) := by
  have hmembers : ∀ m ∈ members.map textMember, ∀ before key,
      Builder.Rebuilds [.member before key] m.2 := by
    simp only [List.forall_mem_map]
    exact fun _ _ _ _ => rfl
  rw [Value.ofTokens?_eq_some_iff, objectWords_eq]
  exact ⟨[], Builder.run?_object (by decide) hmembers⟩

/-- A text is an object of strings that stands for fields: the last member of each key has its value. -/
def Denotes (cs : List Char) (fields : Fields) : Prop :=
  ∃ members, Fields.ofList members = fields ∧ Words (objectWords members) cs

theorem exists_denotes (fields : Fields) : ∃ cs, Denotes cs fields := by
  obtain ⟨cs, hcs⟩ := exists_words (exists_wordText_of_mem_objectWords fields.entries)
  exact ⟨cs, fields.entries, Fields.ofList_entries fields, hcs⟩

/-- The text begins with a brace, but for blanks. -/
theorem Denotes.exists_blanks {cs : List Char} {fields : Fields} (h : Denotes cs fields) :
    ∃ blanks rest, cs = blanks ++ '\x7b' :: rest ∧ ∀ c ∈ blanks, isBlank c = true := by
  obtain ⟨members, -, hwords⟩ := h
  have hfirst : ∃ more, objectWords members = .openBrace :: more := by
    cases members <;> exact ⟨_, rfl⟩
  obtain ⟨more, hmore⟩ := hfirst
  rw [hmore] at hwords
  cases hwords with
  | @cons blanks w rest _ _ hblanks hword hrest =>
    cases hword
    exact ⟨blanks, rest, rfl, hblanks⟩

/-- **Every spelling of an object.** -/
theorem ofText?_of_denotes {cs : List Char} {fields : Fields} (h : Denotes cs fields) :
    Value.ofText? cs = some (.object (fields.entries.map textMember)) := by
  obtain ⟨members, rfl, hwords⟩ := h
  have hmap : byKey (members.map textMember) = (byKey members).map textMember :=
    byKey_map_snd (fun value => Value.scalar (.string value)) members
  rw [Value.ofText?, hwords.tokens?_eq, Option.bind_some, ofTokens?_objectWords, hmap]
  rfl

end LegibleLog.Json
