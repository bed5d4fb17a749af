import LegibleLog.Json.Builder
import LegibleLog.Proofs.Json.Words

/-!
# Brackets and braces balance

A builder is `depth` containers deep; a word takes it in or out by its `Token.net`.

* `Builder.depth_step?`, `Builder.depth_run?` — what one word does to the depth, and what a row of words does;
* `Builder.begun_run?` — after a first word, all containers are closed only when the value is complete;
* `Value.netOf_eq_zero` — the words of a value close what they open;
* `Value.blank_of_ofText?_after_tab` — hence no text of a value ends in a tab and a further text of a value, unless
  there are only blanks before the tab.
-/

namespace LegibleLog.Json

/-- How many containers a word opens, less those that it closes. -/
def Token.net : Token → Int
  | .openBracket => 1
  | .openBrace => 1
  | .closeBracket => -1
  | .closeBrace => -1
  | .comma => 0
  | .colon => 0
  | .scalar _ => 0

/-- How many containers words open, less those that they close. -/
def netOf : List Token → Int
  | [] => 0
  | t :: ts => t.net + netOf ts

@[simp]
theorem netOf_append (ts ts' : List Token) : netOf (ts ++ ts') = netOf ts + netOf ts' := by
  induction ts with
  | nil => exact (Int.zero_add _).symm
  | cons t ts ih => rw [List.cons_append, netOf, netOf, ih, Int.add_assoc]

namespace Builder

/-- How many containers are open. -/
def depth (b : Builder) : Nat :=
  match b.mode with
  | .value => b.frames.length
  | .finished _ => 0
  | .arrayStart => b.frames.length + 1
  | .objectStart => b.frames.length + 1
  | .nextKey _ => b.frames.length + 1
  | .key _ _ => b.frames.length + 1
  | .itemEnd _ => b.frames.length + 1
  | .memberEnd _ => b.frames.length + 1

/-- The value is complete once no container is open. -/
def Begun (b : Builder) : Prop := b.depth = 0 → ∃ v, b.mode = .finished v

variable {b b' : Builder} {t : Token} {ts ts' : List Token}

/-! ### One word -/

@[simp]
theorem depth_deliver (v : Value) (frames : List Frame) : (deliver v frames).depth = frames.length := by
  unfold deliver
  split <;> rfl

theorem begun_deliver (v : Value) (frames : List Frame) : (deliver v frames).Begun := by
  unfold deliver Begun
  split
  · exact fun _ => ⟨v, rfl⟩
  · exact fun h => absurd h (Nat.succ_ne_zero _)
  · exact fun h => absurd h (Nat.succ_ne_zero _)

theorem begun_of_depth_eq_succ {n : Nat} (h : b.depth = n + 1) : b.Begun := by
  intro hzero
  omega

theorem openIn_eq_some {mode : Mode} {frames : List Frame} (h : openIn mode frames = some b) : b = ⟨mode, frames⟩ := by
  unfold openIn at h
  split at h
  · exact (Option.some.inj h).symm
  · cases h

/-- What the first word of a value does, inside the containers that wait for the value. -/
theorem depth_begin? {frames : List Frame} (h : begin? frames t = some b) :
    (b.depth : Int) = frames.length + t.net ∧ b.Begun := by
  unfold begin? at h
  split at h
  · cases h
    exact ⟨by simp [depth_deliver, Token.net], begun_deliver _ _⟩
  · obtain rfl := openIn_eq_some h
    exact ⟨by simp [depth, Token.net], begun_of_depth_eq_succ rfl⟩
  · obtain rfl := openIn_eq_some h
    exact ⟨by simp [depth, Token.net], begun_of_depth_eq_succ rfl⟩
  · cases h

/-- **One word.** It takes the builder in or out by what it opens or closes, and once it has come all containers are
closed only when the value is complete. -/
theorem depth_step? (h : b.step? t = some b') : (b'.depth : Int) = b.depth + t.net ∧ b'.Begun := by
  cases step?_eq_some_iff.mp h with
  | begins hbegin => simpa [depth] using depth_begin? hbegin
  | firstItem hbegin => simpa [depth] using depth_begin? hbegin
  | noItems | noMembers | endItems | endMembers =>
    refine ⟨?_, begun_deliver _ _⟩
    rw [depth_deliver]
    simp only [depth, Token.net]
    omega
  | firstKey | nextKey | colon | moreItems | moreMembers =>
    exact ⟨by simp [depth, Token.net], begun_of_depth_eq_succ rfl⟩

/-- Nothing may come after a complete value. -/
@[simp]
theorem step?_finished (v : Value) (frames : List Frame) (t : Token) : step? ⟨.finished v, frames⟩ t = none := rfl

/-! ### A row of words -/

theorem run?_cons_eq_some_iff :
    b.run? (t :: ts) = some b' ↔ ∃ next, b.step? t = some next ∧ next.run? ts = some b' := by
  rw [run?]
  cases b.step? t <;> simp

theorem run?_append_eq_some_iff :
    b.run? (ts ++ ts') = some b' ↔ ∃ next, b.run? ts = some next ∧ next.run? ts' = some b' := by
  induction ts generalizing b with
  | nil => simp [run?]
  | cons t ts ih =>
    simp only [List.cons_append, run?_cons_eq_some_iff, ih]
    constructor
    · rintro ⟨first, hfirst, next, hnext, hb'⟩
      exact ⟨next, ⟨first, hfirst, hnext⟩, hb'⟩
    · rintro ⟨next, ⟨first, hfirst, hnext⟩, hb'⟩
      exact ⟨first, hfirst, next, hnext, hb'⟩

/-- **A row of words.** The depth after it is the depth before it and what its words open and close. -/
theorem depth_run? (h : b.run? ts = some b') : (b'.depth : Int) = b.depth + netOf ts := by
  induction ts generalizing b with
  | nil =>
    obtain rfl := Option.some.inj h
    exact (Int.add_zero _).symm
  | cons t ts ih =>
    obtain ⟨next, hnext, hrest⟩ := run?_cons_eq_some_iff.mp h
    rw [ih hrest, (depth_step? hnext).1, netOf, Int.add_assoc]

theorem begun_run? (hts : ts ≠ []) (h : b.run? ts = some b') : b'.Begun := by
  induction ts generalizing b with
  | nil => exact absurd rfl hts
  | cons t ts ih =>
    obtain ⟨next, hnext, hrest⟩ := run?_cons_eq_some_iff.mp h
    by_cases hnil : ts = []
    · subst hnil
      obtain rfl := Option.some.inj hrest
      exact (depth_step? hnext).2
    · exact ih hnil hrest

end Builder

/-! ### Values -/

namespace Value

variable {v w : Value} {ts ts' : List Token}

theorem ofTokens?_eq_some_iff :
    ofTokens? ts = some v ↔ ∃ frames, Builder.start.run? ts = some ⟨.finished v, frames⟩ := by
  unfold ofTokens?
  split
  · next hrun => simp [hrun]
  · next hother =>
    constructor
    · intro h
      cases h
    · rintro ⟨frames, hrun⟩
      exact absurd hrun (hother v frames)

/-- **Balance.** The words of a value close all that they open. -/
theorem netOf_eq_zero (h : ofTokens? ts = some v) : netOf ts = 0 := by
  obtain ⟨frames, hrun⟩ := ofTokens?_eq_some_iff.mp h
  have hdepth := Builder.depth_run? hrun
  simp only [Builder.depth, Builder.start, List.length_nil] at hdepth
  omega

/-- A value does not end in the words of another value: those before these would be balanced and so complete. -/
theorem eq_nil_of_ofTokens?_append (h : ofTokens? (ts ++ ts') = some v) (h' : ofTokens? ts' = some w) : ts = [] := by
  by_contra hne
  obtain ⟨frames, hrun⟩ := ofTokens?_eq_some_iff.mp h
  obtain ⟨b, hfront, hback⟩ := Builder.run?_append_eq_some_iff.mp hrun
  have hsum : netOf ts = 0 := by
    have hnet := netOf_eq_zero h
    rwa [netOf_append, netOf_eq_zero h', Int.add_zero] at hnet
  have hdepth : b.depth = 0 := by
    have hrun := Builder.depth_run? hfront
    rw [hsum] at hrun
    exact Int.ofNat.inj hrun
  obtain ⟨u, hu⟩ := Builder.begun_run? hne hfront hdepth
  cases ts' with
  | nil => cases h'
  | cons t ts' =>
    obtain ⟨next, hnext, -⟩ := Builder.run?_cons_eq_some_iff.mp hback
    obtain ⟨mode, frames⟩ := b
    obtain rfl : mode = .finished u := hu
    rw [Builder.step?_finished] at hnext
    cases hnext

/-- **No text of a value ends in a tab and another text of a value**, but for blanks before the tab. -/
theorem blank_of_ofText?_after_tab {u rest : List Char} (h : ofText? (u ++ '\t' :: rest) = some v)
    (h' : ofText? rest = some w) : ∀ c ∈ u, isBlank c = true := by
  obtain ⟨ts, hts, hvalue⟩ := Option.bind_eq_some_iff.mp h
  obtain ⟨front, back, hback, rfl, hfront⟩ := tokens?_after_tab hts
  obtain ⟨back', hback', hvalue'⟩ := Option.bind_eq_some_iff.mp h'
  obtain rfl : back = back' := Option.some.inj (hback.symm.trans hback')
  exact hfront (eq_nil_of_ofTokens?_append hvalue hvalue')

end Value

end LegibleLog.Json
