import LegibleLog.Proofs.Json.Spellings
import LegibleLog.Proofs.Numerals

/-!
# A written value is read back

* `Scalar.read?_chars_append` — a scalar that is no double is read up to its end, if what follows does not go on with a
  number;
* `Builder.AfterScalar.endsNumber` — after a scalar there is always such a word;
* `Builder.tokens?_chars` — so words that a builder takes are read back when they are written without blanks;
* `Value.All P v`, `Value.RealFree v` — what holds of all scalars of a value;
* `Compact cs` — a text that is written without blanks;
* `Value.Canonical.ofText?_text` — the text of a value in canonical form is compact and stands for this value.
-/

namespace LegibleLog.Json

/-! ### Scalars -/

theorem isBlank_of_isDigit {c : Char} (h : c.isDigit = true) : isBlank c = false := by
  have hne : ∀ b, b.isDigit = false → c ≠ b := by
    rintro b hb rfl
    rw [h] at hb
    cases hb
  simp [isBlank, hne ' ' (by decide), hne '\t' (by decide), hne '\n' (by decide), hne '\r' (by decide)]

/-- A scalar is not a floating-point number. -/
def Scalar.NotReal (s : Scalar) : Prop := ∀ negative magnitude, s ≠ .real negative magnitude

/-- A written scalar begins with a character that is not blank, and is read up to its end. -/
theorem Scalar.read?_chars_append {s : Scalar} (hexact : s.Exact) (hreal : s.NotReal) {rest : List Char}
    (hrest : EndsNumber rest) :
    Token.read? (s.chars ++ rest) = some (.scalar s, rest) ∧ ∃ c r, s.chars = c :: r ∧ isBlank c = false := by
  cases s with
  | null => exact ⟨rfl, _, _, rfl, by decide⟩
  | bool b => cases b <;> exact ⟨rfl, _, _, rfl, by decide⟩
  | real negative magnitude => exact absurd rfl (hreal negative magnitude)
  | string s => exact (wordText_string s).read?_append rest
  | integer n =>
    obtain ⟨hlow, hhigh⟩ := hexact
    refine ⟨read?_toString_append (by omega) (by omega) hrest, ?_⟩
    obtain ⟨c, r, hcr, hc⟩ := (Numeral.ofInt n).exists_cons_chars (Numeral.sign_ofInt_ne_plus n)
    refine ⟨c, r, (Numeral.chars_ofInt n).symm.trans hcr, ?_⟩
    rcases hc with hdigit | rfl
    · exact isBlank_of_isDigit hdigit
    · decide

/-! ### Words -/

/-- The scalars among words are exact and none is a floating-point number. -/
def Plain (ts : List Token) : Prop := ∀ s, .scalar s ∈ ts → s.Exact ∧ s.NotReal

namespace Builder

variable {b b' : Builder} {t : Token} {ts : List Token} {s : Scalar}

/-- A key or a value has just been read. -/
def AfterScalar (b : Builder) : Prop :=
  match b.mode with
  | .key _ _ => True
  | .itemEnd _ => True
  | .memberEnd _ => True
  | .finished _ => True
  | _ => False

theorem afterScalar_deliver (v : Value) (frames : List Frame) : (deliver v frames).AfterScalar := by
  unfold deliver
  split <;> exact trivial

theorem afterScalar_step? (h : b.step? (.scalar s) = some b') : b'.AfterScalar := by
  obtain ⟨mode, frames⟩ := b
  cases mode with
  | value | arrayStart =>
    cases h
    exact afterScalar_deliver _ _
  | objectStart | nextKey =>
    cases s with
    | string k =>
      cases h
      exact trivial
    | _ => cases h
  | _ => cases h

/-- A word that may come after a scalar does not go on with it. -/
theorem AfterScalar.endsNumber (hb : b.AfterScalar) (h : b.step? t = some b') (rest : List Char) :
    EndsNumber (t.chars ++ rest) := by
  have hends : ∀ c : Char, c.isDigit = false ∧ c ≠ '.' ∧ c ≠ 'e' ∧ c ≠ 'E' → EndsNumber ([c] ++ rest) := by
    rintro c hc _ ⟨⟩
    exact hc
  cases t with
  | comma => exact hends ',' (by decide)
  | colon => exact hends ':' (by decide)
  | closeBracket => exact hends ']' (by decide)
  | closeBrace => exact hends '\x7d' (by decide)
  | _ =>
    obtain ⟨mode, frames⟩ := b
    cases mode with
    | key | itemEnd | memberEnd | finished => cases h
    | _ => exact hb.elim

/-- **Written words** are read back, if a builder takes them. -/
theorem tokens?_chars (hts : Plain ts) (h : b.run? ts = some b') : tokens? (ts.flatMap Token.chars) = some ts := by
  induction ts generalizing b with
  | nil => exact tokens?_eq_nil rfl
  | cons t ts ih =>
    obtain ⟨next, hnext, hrest⟩ := run?_cons_eq_some_iff.mp h
    have hmore : tokens? (ts.flatMap Token.chars) = some ts := ih (fun s hs => hts s (List.mem_cons_of_mem t hs)) hrest
    have hread : Token.read? (t.chars ++ ts.flatMap Token.chars) = some (t, ts.flatMap Token.chars) ∧
        ∃ c r, t.chars = c :: r ∧ isBlank c = false := by
      cases t with
      | scalar s =>
        obtain ⟨hexact, hreal⟩ := hts s List.mem_cons_self
        refine Scalar.read?_chars_append hexact hreal ?_
        cases ts with
        | nil => nofun
        | cons t' ts =>
          obtain ⟨_, hstep, -⟩ := run?_cons_eq_some_iff.mp hrest
          exact (afterScalar_step? hnext).endsNumber hstep _
      | _ => exact ⟨rfl, _, _, rfl, by decide⟩
    obtain ⟨hword, c, r, hcr, hc⟩ := hread
    have hdrop : (c :: r ++ ts.flatMap Token.chars).dropWhile isBlank = c :: (r ++ ts.flatMap Token.chars) :=
      List.dropWhile_cons_of_neg (by simp [hc])
    rw [hcr] at hword
    rw [List.flatMap_cons, hcr, tokens?_of_cons hdrop, ← List.cons_append, hword, Option.bind_some, hmore]
    rfl

end Builder

/-! ### Values -/

namespace Value

/-- All scalars of a value have a property. -/
inductive All (P : Scalar → Prop) : Value → Prop where
  | scalar {s : Scalar} (h : P s) : All P (.scalar s)
  | array {items : List Value} (h : ∀ v ∈ items, All P v) : All P (.array items)
  | object {members : List (String × Value)} (h : ∀ m ∈ members, All P m.2) : All P (.object members)

/-- A value contains no floating-point number. -/
def RealFree (v : Value) : Prop := v.All Scalar.NotReal

variable {P : Scalar → Prop} {v : Value} {s : Scalar} {d : Nat}

theorem exists_of_mem_tokens_array {items : List Value} (h : .scalar s ∈ (array items).tokens) :
    ∃ v ∈ items, .scalar s ∈ v.tokens := by
  cases items with
  | nil => nomatch h
  | cons v vs =>
    rw [tokens_array_cons] at h
    simpa [itemWords] using h

theorem exists_of_mem_tokens_object {members : List (String × Value)} (h : .scalar s ∈ (object members).tokens) :
    ∃ m ∈ members, s = .string m.1 ∨ .scalar s ∈ m.2.tokens := by
  cases members with
  | nil => nomatch h
  | cons m ms =>
    rw [tokens_object_cons] at h
    simpa [memberWords, afterKey, or_assoc] using h

/-- The words of a value have no scalars but those of the value and the keys of its objects. -/
theorem All.of_mem_tokens (h : v.All P) (hkey : ∀ key, P (.string key)) (hs : .scalar s ∈ v.tokens) : P s := by
  induction h with
  | scalar h =>
    obtain rfl := Token.scalar.inj (List.mem_singleton.mp hs)
    exact h
  | array _ ih =>
    obtain ⟨v, hv, hs⟩ := exists_of_mem_tokens_array hs
    exact ih v hv hs
  | object _ ih =>
    obtain ⟨m, hm, rfl | hs⟩ := exists_of_mem_tokens_object hs
    · exact hkey m.1
    · exact ih m hm hs

theorem Canonical.all_exact (h : v.Canonical d) : v.All Scalar.Exact := by
  induction h with
  | scalar h => exact .scalar h
  | array _ ih => exact .array ih
  | object _ _ ih => exact .object ih

theorem Canonical.plain_tokens (h : v.Canonical d) (hreal : v.RealFree) : Plain v.tokens := fun _ hs =>
  ⟨h.all_exact.of_mem_tokens (fun _ => trivial) hs, hreal.of_mem_tokens (by nofun) hs⟩

end Value

/-! ### Texts -/

/-- A text is written without blanks: its words follow each other, each written in the one way that a writer has. -/
def Compact (cs : List Char) : Prop := ∃ ts, tokens? cs = some ts ∧ cs = ts.flatMap Token.chars

namespace Value.Canonical

variable {v : Value} {d : Nat}

theorem tokens?_text (h : v.Canonical d) (hd : d ≤ Builder.maxDepth) (hreal : v.RealFree) :
    tokens? v.text.toList = some v.tokens := by
  have hrun : Builder.start.run? v.tokens = some (Builder.deliver v []) := h.run?_tokens (by simpa using hd)
  rw [Value.text, String.toList_ofList, Builder.tokens?_chars (h.plain_tokens hreal) hrun]

theorem compact_text (h : v.Canonical d) (hd : d ≤ Builder.maxDepth) (hreal : v.RealFree) : Compact v.text.toList :=
  ⟨v.tokens, h.tokens?_text hd hreal, String.toList_ofList⟩

/-- **Writing and reading.** The text of a value stands for this value. -/
theorem ofText?_text (h : v.Canonical d) (hd : d ≤ Builder.maxDepth) (hreal : v.RealFree) :
    Value.ofText? v.text.toList = some v := by
  rw [Value.ofText?, h.tokens?_text hd hreal, Option.bind_some, Value.ofTokens?_eq_some_iff]
  exact ⟨[], h.run?_tokens (by simpa using hd)⟩

end Value.Canonical

end LegibleLog.Json
