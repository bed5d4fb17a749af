import LegibleLog.Proofs.AnyOrder
import LegibleLog.Proofs.Json.Canonical

/-!
# A value is rebuilt from its words

* `Value.itemWords`, `Value.memberWords`, `Value.afterKey` — the words of an item or member after the first one, and of
  a member after its key;
* `Value.pushTokens_eq` — the words of a value are put as a whole before those that are there;
* `Value.tokens_array_cons`, `Value.tokens_object_cons` — the words of a container, part by part;
* `Builder.Rebuilds frames v` — a builder takes these words for the value; `Builder.run?_array` and
  `Builder.run?_object` — it does if it does so for each part, but it puts members in order;
* `Value.Canonical.run?_tokens` — so it rebuilds every value in canonical form that it has room for.
-/

namespace LegibleLog.Json

/-! ### The words of a value -/

namespace Value

/-- The words of an item after the first one. -/
def itemWords (v : Value) : List Token := .comma :: v.tokens

/-- The words of a member after its key. -/
def afterKey (v : Value) : List Token := .colon :: v.tokens

/-- The words of a member after the first one. -/
def memberWords (m : String × Value) : List Token := .comma :: .scalar (.string m.1) :: m.2.afterKey

mutual

theorem pushTokens_eq (done : List Token) : (v : Value) → pushTokens done v = v.tokens.reverse ++ done
  | .scalar _ => rfl
  | .array [] => rfl
  | .array (v :: vs) => by
    rw [tokens, List.reverse_reverse, pushTokens, pushTokens, pushItems_eq _ vs, pushItems_eq _ vs,
      pushTokens_eq (.openBracket :: done) v, pushTokens_eq [.openBracket] v]
    simp
  | .object [] => rfl
  | .object ((k, v) :: ms) => by
    rw [tokens, List.reverse_reverse, pushTokens, pushTokens, pushMembers_eq _ ms, pushMembers_eq _ ms,
      pushTokens_eq (.colon :: .scalar (.string k) :: .openBrace :: done) v,
      pushTokens_eq [.colon, .scalar (.string k), .openBrace] v]
    simp

theorem pushItems_eq (done : List Token) :
    (vs : List Value) → pushItems done vs = (vs.flatMap itemWords).reverse ++ done
  | [] => rfl
  | v :: vs => by
    rw [pushItems, pushItems_eq _ vs, pushTokens_eq _ v]
    simp [itemWords]

theorem pushMembers_eq (done : List Token) :
    (ms : List (String × Value)) → pushMembers done ms = (ms.flatMap memberWords).reverse ++ done
  | [] => rfl
  | (k, v) :: ms => by
    rw [pushMembers, pushMembers_eq _ ms, pushTokens_eq _ v]
    simp [memberWords, afterKey]

end

theorem tokens_array_cons (v : Value) (vs : List Value) :
    (array (v :: vs)).tokens = .openBracket :: (v.tokens ++ (vs.flatMap itemWords ++ [.closeBracket])) := by
  rw [tokens, pushTokens, pushItems_eq, pushTokens_eq]
  simp

theorem tokens_object_cons (m : String × Value) (ms : List (String × Value)) :
    (object (m :: ms)).tokens =
      .openBrace :: .scalar (.string m.1) :: (m.2.afterKey ++ (ms.flatMap memberWords ++ [.closeBrace])) := by
  rw [tokens, pushTokens, pushMembers_eq, pushTokens_eq]
  simp [afterKey]

/-- No value begins with a bracket that closes an array. -/
theorem exists_tokens_eq_cons (v : Value) : ∃ t ts, v.tokens = t :: ts ∧ t ≠ .closeBracket := by
  cases v with
  | scalar s => exact ⟨_, _, rfl, by nofun⟩
  | array items =>
    cases items with
    | nil => exact ⟨_, _, rfl, by nofun⟩
    | cons v vs => exact ⟨_, _, tokens_array_cons v vs, by nofun⟩
  | object members =>
    cases members with
    | nil => exact ⟨_, _, rfl, by nofun⟩
    | cons m ms => exact ⟨_, _, tokens_object_cons m ms, by nofun⟩

end Value

/-! ### The builder over these words -/

namespace Builder

open Value

variable {b b' : Builder} {frames : List Frame} {ts ts' : List Token}

theorem run?_append_of_run? (h : b.run? ts = some b') : b.run? (ts ++ ts') = b'.run? ts' := by
  induction ts generalizing b with
  | nil =>
    cases h
    rfl
  | cons t ts ih =>
    obtain ⟨next, hnext, hrest⟩ := run?_cons_eq_some_iff.mp h
    rw [List.cons_append, run?, hnext]
    exact ih hrest

/-- The builder takes the words of a value and hands it to the container that waits for it. -/
def Rebuilds (frames : List Frame) (v : Value) : Prop := run? ⟨.value, frames⟩ v.tokens = some (deliver v frames)

/-- The first item of an array is read as any other one. -/
theorem run?_arrayStart (v : Value) :
    run? ⟨.arrayStart, frames⟩ (v.tokens ++ ts) = run? ⟨.value, .item [] :: frames⟩ (v.tokens ++ ts) := by
  obtain ⟨t, more, htokens, ht⟩ := v.exists_tokens_eq_cons
  have hstep : step? ⟨.arrayStart, frames⟩ t = step? ⟨.value, .item [] :: frames⟩ t := by
    cases t with
    | closeBracket => exact absurd rfl ht
    | _ => rfl
  rw [htokens, List.cons_append, run?, run?, hstep]

theorem run?_items {items : List Value} (h : ∀ v ∈ items, ∀ before, Rebuilds (.item before :: frames) v)
    (before : List Value) :
    run? ⟨.itemEnd before, frames⟩ (items.flatMap itemWords) = some ⟨.itemEnd (items.reverse ++ before), frames⟩ := by
  induction items generalizing before with
  | nil => rfl
  | cons v vs ih =>
    obtain ⟨hv, hvs⟩ := List.forall_mem_cons.mp h
    have hitem : run? ⟨.itemEnd before, frames⟩ v.itemWords = some ⟨.itemEnd (v :: before), frames⟩ := hv before
    rw [List.flatMap_cons, run?_append_of_run? hitem, ih hvs, List.reverse_cons, List.append_assoc]
    rfl

theorem run?_members {members : List (String × Value)}
    (h : ∀ m ∈ members, ∀ before key, Rebuilds (.member before key :: frames) m.2) (before : List (String × Value)) :
    run? ⟨.memberEnd before, frames⟩ (members.flatMap memberWords) =
      some ⟨.memberEnd (members.reverse ++ before), frames⟩ := by
  induction members generalizing before with
  | nil => rfl
  | cons m ms ih =>
    obtain ⟨hm, hms⟩ := List.forall_mem_cons.mp h
    have hmember : run? ⟨.memberEnd before, frames⟩ (memberWords m) = some ⟨.memberEnd (m :: before), frames⟩ :=
      hm before m.1
    rw [List.flatMap_cons, run?_append_of_run? hmember, ih hms, List.reverse_cons, List.append_assoc]
    rfl

theorem run?_array {items : List Value} (hroom : frames.length < maxDepth)
    (h : ∀ v ∈ items, ∀ before, Rebuilds (.item before :: frames) v) :
    run? ⟨.value, frames⟩ (array items).tokens = some (deliver (.array items) frames) := by
  have hopen : ∀ ts, run? ⟨.value, frames⟩ (.openBracket :: ts) = run? ⟨.arrayStart, frames⟩ ts := by
    intro ts
    simp [run?, step?, begin?, openIn, hroom]
  cases items with
  | nil => exact hopen _
  | cons v vs =>
    obtain ⟨hv, hvs⟩ := List.forall_mem_cons.mp h
    have hclose : run? ⟨.itemEnd (vs.reverse ++ [v]), frames⟩ [.closeBracket] =
        some (deliver (.array (vs.reverse ++ [v]).reverse) frames) := rfl
    rw [tokens_array_cons, hopen, run?_arrayStart, run?_append_of_run? (hv [])]
    show run? ⟨.itemEnd [v], frames⟩ _ = _
    rw [run?_append_of_run? (run?_items hvs [v]), hclose]
    simp

/-- The words of an object are taken, even if its keys are not in order. -/
theorem run?_object {members : List (String × Value)} (hroom : frames.length < maxDepth)
    (h : ∀ m ∈ members, ∀ before key, Rebuilds (.member before key :: frames) m.2) :
    run? ⟨.value, frames⟩ (object members).tokens = some (deliver (.object (byKey members)) frames) := by
  have hopen : ∀ ts, run? ⟨.value, frames⟩ (.openBrace :: ts) = run? ⟨.objectStart, frames⟩ ts := by
    intro ts
    simp [run?, step?, begin?, openIn, hroom]
  cases members with
  | nil => exact hopen _
  | cons m ms =>
    obtain ⟨hm, hms⟩ := List.forall_mem_cons.mp h
    have hfirst : run? ⟨.objectStart, frames⟩ (.scalar (.string m.1) :: m.2.afterKey) =
        some ⟨.memberEnd [m], frames⟩ := hm [] m.1
    have hclose : run? ⟨.memberEnd (ms.reverse ++ [m]), frames⟩ [.closeBrace] =
        some (deliver (.object (byKey (ms.reverse ++ [m]).reverse)) frames) := rfl
    rw [tokens_object_cons, hopen, ← List.cons_append, run?_append_of_run? hfirst,
      run?_append_of_run? (run?_members hms [m]), hclose]
    simp

end Builder

/-- **A value in canonical form** is rebuilt from its words wherever there is room for it. -/
theorem Value.Canonical.run?_tokens {d : Nat} {v : Value} (h : v.Canonical d) {frames : List Frame}
    (hroom : frames.length + d ≤ Builder.maxDepth) :
    Builder.run? ⟨.value, frames⟩ v.tokens = some (Builder.deliver v frames) := by
  induction h generalizing frames with
  | scalar _ => rfl
  | @array d items _ ih =>
    refine Builder.run?_array (by omega) fun v hv before => ih v hv ?_
    rw [List.length_cons]
    omega
  | @object d members hascend _ ih =>
    rw [Builder.run?_object (by omega) fun m hm before key => ih m hm ?_, hascend.byKey_eq]
    rw [List.length_cons]
    omega

end LegibleLog.Json
