import LegibleLog.Proofs.Logfmt.Unambiguous
import Mathlib.Data.List.Forall2

/-!
# Every spelling of a record

The ways to write a record, told from its pairs, and that all of them are read back.

* `Text.highHalf c`, `Text.lowHalf c` — the pair of surrogates of a character beyond U+FFFF;
* `Spells c s` — the spelling `s` is one of the character `c`;
* `Written.Spells`, `Token.Spells`, `Row.Spells` — values, tokens and whole records that say a text, a pair and a list
  of pairs;
* `decode_text_of_spells` — each record that says a list of pairs is decoded to just this list.
-/

namespace LegibleLog

/-! ### Pairs of surrogates -/

namespace Text

/-- The high surrogate of a character beyond U+FFFF. -/
def highHalf (c : Char) : Nat := 0xD800 + (c.toNat - 0x10000) / 0x400

/-- The low surrogate of a character beyond U+FFFF. -/
def lowHalf (c : Char) : Nat := 0xDC00 + (c.toNat - 0x10000) % 0x400

theorem isHighSurrogate_highHalf (c : Char) : isHighSurrogate (highHalf c) = true := by
  have hvalid : c.toNat.isValidChar := c.valid
  simp only [Nat.isValidChar] at hvalid
  have hleast : 0xD800 ≤ highHalf c := Nat.le_add_right _ _
  have hmost : highHalf c ≤ 0xDBFF := by
    unfold highHalf
    omega
  simp [isHighSurrogate, hleast, hmost]

theorem isLowSurrogate_lowHalf (c : Char) : isLowSurrogate (lowHalf c) = true := by
  have hleast : 0xDC00 ≤ lowHalf c := Nat.le_add_right _ _
  have hmost : lowHalf c ≤ 0xDFFF := by
    unfold lowHalf
    omega
  simp [isLowSurrogate, hleast, hmost]

/-- The two halves make up the character. -/
theorem joinSurrogates_halves {c : Char} (hc : 0x10000 ≤ c.toNat) : joinSurrogates (highHalf c) (lowHalf c) = c := by
  have hnat : 0x10000 + (highHalf c - 0xD800) * 0x400 + (lowHalf c - 0xDC00) = c.toNat := by
    simp only [highHalf, lowHalf]
    omega
  rw [joinSurrogates, hnat, Char.ofNat_toNat]

end Text

namespace Logfmt

/-! ### Characters -/

/-- The spellings of a character in a quoted value: as it stands, unless it is a quote or a backslash; after a
backslash, unless this has a meaning of its own; as one of the three control characters that have a letter; by its
number in four digits; or by the numbers of its two halves. -/
inductive Spells : Char → Spelling → Prop where
  | plain {c : Char} (hquote : c ≠ '"') (hback : c ≠ '\\') : Spells c (.plain c)
  | escape {c : Char} (hletter : c ∉ ['n', 't', 'r', 'u']) : Spells c (.escape c)
  | lineFeed : Spells '\n' (.escape 'n')
  | tab : Spells '\t' (.escape 't')
  | carriageReturn : Spells '\r' (.escape 'r')
  | number {c : Char} {ds : List Char} (hds : fourDigits? ds = some c.toNat) : Spells c (.number ds)
  | pair {c : Char} {hs ls : List Char} (hc : 0x10000 ≤ c.toNat) (hhs : fourDigits? hs = some (Text.highHalf c))
    (hls : fourDigits? ls = some (Text.lowHalf c)) : Spells c (.pair hs ls)

namespace Spells

variable {c : Char} {s : Spelling}

theorem legal (h : Spells c s) : s.Legal fourDigits? := by
  cases h with
  | plain hquote hback => exact ⟨hquote, hback⟩
  | escape hletter =>
    rintro rfl
    exact hletter (by decide)
  | lineFeed => exact Char.ne_of_val_ne (by decide)
  | tab => exact Char.ne_of_val_ne (by decide)
  | carriageReturn => exact Char.ne_of_val_ne (by decide)
  | number hds => exact ⟨c.toNat, hds, c.valid⟩
  | pair hc hhs hls =>
    exact ⟨Text.highHalf c, Text.lowHalf c, hhs, hls, Text.isHighSurrogate_highHalf c, Text.isLowSurrogate_lowHalf c⟩

/-- What a spelling of a character stands for is that character. -/
theorem char_eq (h : Spells c s) : s.char hexNumber? = c := by
  cases h with
  | plain => rfl
  | escape hletter =>
    simp only [List.mem_cons, List.not_mem_nil, or_false, not_or] at hletter
    simp [Spelling.char, meaning, hletter]
  | lineFeed => rfl
  | tab => rfl
  | carriageReturn => rfl
  | number hds =>
    have hnumber := (fourDigits?_eq_some_iff.mp hds).1
    rw [Spelling.char, hnumber, Option.getD_some, Char.ofNat_toNat]
  | pair hc hhs hls =>
    have hhigh := (fourDigits?_eq_some_iff.mp hhs).1
    have hlow := (fourDigits?_eq_some_iff.mp hls).1
    rw [Spelling.char, hhigh, hlow, Option.getD_some, Option.getD_some, Text.joinSurrogates_halves hc]

end Spells

/-- Some spelling there is for each character: a quote and a backslash stand after a backslash. -/
theorem exists_spells (c : Char) : ∃ s, Spells c s := by
  by_cases hplain : c ≠ '"' ∧ c ≠ '\\'
  · exact ⟨.plain c, .plain hplain.1 hplain.2⟩
  · refine ⟨.escape c, .escape fun hletter => hplain ?_⟩
    constructor
    · rintro rfl
      exact absurd hletter (by decide)
    · rintro rfl
      exact absurd hletter (by decide)

/-! ### Values, tokens and records -/

/-- A written value says a text: it is the text, which then has no blank, no equals sign and no quote, or between its
quotes there is a spelling of each character. -/
def Written.Spells (value : String) : Written → Prop
  | bare cs => cs = value.toList ∧ ∀ c ∈ cs, isBare c = true
  | quoted items => List.Forall₂ Logfmt.Spells value.toList items

/-- A written token says a pair. -/
structure Token.Spells (pair : String × String) (t : Token) : Prop where
  key : t.key = pair.1.toList
  value : t.value.Spells pair.2

/-- A written record says a list of pairs: its tokens say them in order, with one blank or more between them. -/
structure Row.Spells (pairs : List (String × String)) (row : Row) : Prop where
  tokens : List.Forall₂ (fun pair p => p.2.Spells pair) pairs row.tokens
  gaps : ∀ p ∈ row.tokens, ∀ c ∈ p.1, Text.isBlank c = true
  apart : ∀ p ∈ row.tokens.tail, p.1 ≠ []
  after : ∀ c ∈ row.after, Text.isBlank c = true

/-- A key of a record: not empty, and without blanks, equals signs and quotes. -/
def IsKey (key : String) : Prop := key ≠ "" ∧ ∀ c ∈ key.toList, isBare c = true

instance : DecidablePred IsKey := fun key =>
  decidable_of_iff (key ≠ "" ∧ key.toList.all isBare = true) (by rw [IsKey, List.all_eq_true])

/-- Where each element of one list is a function of the element across, the list is the image of the other. -/
theorem forall₂_image {α β : Type} {R : α → β → Prop} (f : β → α) (hf : ∀ {a b}, R a b → f b = a) {as : List α}
    {bs : List β} (h : List.Forall₂ R as bs) : bs.map f = as ∧ ∀ b ∈ bs, R (f b) b := by
  have himage : as = bs.map f := by
    rw [← List.forall₂_eq_eq_eq, List.forall₂_map_right_iff]
    exact h.imp fun _ _ hab => (hf hab).symm
  subst himage
  rw [List.forall₂_map_left_iff, List.forall₂_same] at h
  exact ⟨rfl, h⟩

namespace Written

variable {w : Written} {value : String}

theorem Spells.legal (h : w.Spells value) : w.Legal fourDigits? := by
  cases w with
  | bare cs => exact h.2
  | quoted items =>
    intro s hs
    exact ((forall₂_image (Spelling.char hexNumber?) Logfmt.Spells.char_eq h).2 s hs).legal

theorem Spells.value_eq (h : w.Spells value) : w.value hexNumber? = value := by
  cases w with
  | bare cs => rw [Written.value, h.1, String.ofList_toList]
  | quoted items =>
    have himage := (forall₂_image (Spelling.char hexNumber?) Logfmt.Spells.char_eq h).1
    rw [Written.value, himage, String.ofList_toList]

theorem exists_spells (value : String) : ∃ w : Written, w.Spells value := by
  choose spelling hspelling using Logfmt.exists_spells
  refine ⟨.quoted (value.toList.map spelling), ?_⟩
  rw [Spells, List.forall₂_map_right_iff, List.forall₂_same]
  exact fun c _ => hspelling c

end Written

namespace Token

variable {t : Token} {pair : String × String}

theorem Spells.legal (h : t.Spells pair) (hkey : IsKey pair.1) : t.Legal fourDigits? where
  key_ne_nil := by
    rw [h.key, Ne, String.toList_eq_nil_iff]
    exact hkey.1
  key_bare := by
    rw [h.key]
    exact hkey.2
  value_legal := h.value.legal

theorem Spells.pair_eq (h : t.Spells pair) : t.pair hexNumber? = pair := by
  rw [Token.pair, h.key, h.value.value_eq, String.ofList_toList]

end Token

namespace Row

variable {row : Row} {pairs : List (String × String)}

theorem Spells.pairs_eq (h : row.Spells pairs) : row.pairs hexNumber? = pairs := by
  show row.tokens.map (fun p => p.2.pair hexNumber?) = pairs
  exact (forall₂_image (·.2.pair hexNumber?) Token.Spells.pair_eq h.tokens).1

theorem Spells.legal (h : row.Spells pairs) (hkeys : ∀ pair ∈ pairs, IsKey pair.1) : row.Legal fourDigits? where
  tokens := by
    intro p hp
    have hsays := (forall₂_image (·.2.pair hexNumber?) Token.Spells.pair_eq h.tokens).2 p hp
    have hmem : p.2.pair hexNumber? ∈ pairs := by
      rw [← h.pairs_eq]
      exact List.mem_map_of_mem hp
    exact ⟨h.gaps p hp, hsays.legal (hkeys _ hmem)⟩
  apart := h.apart
  after := h.after

theorem exists_spells (pairs : List (String × String)) : ∃ row : Row, row.Spells pairs := by
  choose written hwritten using Written.exists_spells
  refine ⟨⟨pairs.map fun pair => ([' '], ⟨pair.1.toList, written pair.2⟩), []⟩, ?_, ?_, ?_, List.forall_mem_nil _⟩
  · rw [List.forall₂_map_right_iff, List.forall₂_same]
    exact fun pair _ => ⟨rfl, hwritten pair.2⟩
  · intro p hp
    obtain ⟨pair, -, rfl⟩ := List.mem_map.mp hp
    exact List.forall_mem_singleton.mpr (by decide)
  · intro p hp
    obtain ⟨pair, -, rfl⟩ := List.mem_map.mp (List.mem_of_mem_tail hp)
    exact List.cons_ne_nil _ _

end Row

/-- **Every spelling.** A list of pairs with proper keys and any values may be written in many ways, and in one at
least; each of them is decoded to just this list. -/
theorem decode_text_of_spells {pairs : List (String × String)} (hkeys : ∀ pair ∈ pairs, IsKey pair.1) :
    (∀ row : Row, row.Spells pairs → decode row.text = .ok pairs) ∧ ∃ row : Row, row.Spells pairs := by
  refine ⟨fun row hrow => ?_, Row.exists_spells pairs⟩
  have hlegal := (Row.legal_fourDigits_iff.mp (hrow.legal hkeys)).1
  exact decode_eq_ok_iff.mpr ⟨row, hlegal, rfl, hrow.pairs_eq⟩

/-- A line feed, a quote, a small letter and a smile in one value, each in another way, and two values without
quotes. -/
theorem decode_text_of_spells_mixed :
    let pairs := [("a", "x\n\"é😀"), ("b", "v"), ("c", "")]
    let row : Row := ⟨[([], ⟨['a'], .quoted [.plain 'x', .escape 'n', .escape '"', .number "00E9".toList,
      .pair "D83d".toList "dE00".toList]⟩), ([' ', '\t'], ⟨['b'], .bare ['v']⟩), ([' '], ⟨['c'], .bare []⟩)], []⟩
    (∀ pair ∈ pairs, IsKey pair.1) ∧ row.Spells pairs ∧
      String.ofList row.text = "a=\"x\\n\\\"\\u00E9\\uD83d\\udE00\" \tb=v c=" ∧ decode row.text = .ok pairs := by
  intro pairs row
  have hkeys : ∀ pair ∈ pairs, IsKey pair.1 := by decide +kernel
  have hvalue : List.Forall₂ Logfmt.Spells ['x', '\n', '"', 'é', '😀']
      [.plain 'x', .escape 'n', .escape '"', .number "00E9".toList, .pair "D83d".toList "dE00".toList] :=
    .cons (.plain (by decide) (by decide)) (.cons .lineFeed (.cons (.escape (by decide))
      (.cons (.number (by decide +kernel)) (.cons (.pair (by decide) (by decide +kernel) (by decide +kernel)) .nil))))
  have hbare : ∀ c ∈ ['v'], isBare c = true := List.forall_mem_singleton.mpr (by decide)
  have hrow : row.Spells pairs := by
    refine ⟨.cons ⟨rfl, hvalue⟩ (.cons ⟨rfl, rfl, hbare⟩ (.cons ⟨rfl, rfl, List.forall_mem_nil _⟩ .nil)), ?_, ?_,
      List.forall_mem_nil _⟩
    · simp only [row, List.forall_mem_cons]
      exact ⟨List.forall_mem_nil _, ⟨by decide, by decide, List.forall_mem_nil _⟩, ⟨by decide, List.forall_mem_nil _⟩,
        List.forall_mem_nil _⟩
    · simp [row]
  exact ⟨hkeys, hrow, by decide +kernel, (decode_text_of_spells hkeys).1 row hrow⟩

end Logfmt

end LegibleLog
