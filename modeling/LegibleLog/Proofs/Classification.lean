import LegibleLog.Event.Roles
import LegibleLog.Proofs.Fields
import Mathlib.Data.List.Basic

/-!
# The roles take keys from a record

Time, message and level are taken one after the other, each from the pairs that the role before has left.

* `takeText_cases` — all that `takeText` can do;
* `Claims` — a role takes a key, or none, and leaves the rest; `claims_time` and `claims_takeText` are its two cases;
* `Event.Separated` — the invariant of events: keys with a role are distinct, and none is the key of a field;
* `Event.separated_ofPairs` — it holds of every record, and `Event.get?_ofPairs_of_mem` says which pairs are left.
-/

namespace LegibleLog

variable {key k text : String} {keys : List String} {pairs rest : List (String × RawValue)} {p : String × RawValue}

/-! ### The texts of a key -/

theorem mem_withoutKey : p ∈ withoutKey key pairs ↔ p ∈ pairs ∧ p.1 ≠ key := by
  simp [withoutKey]

theorem withoutKey_sublist (key : String) (pairs : List (String × RawValue)) : (withoutKey key pairs).Sublist pairs :=
  List.filter_sublist

theorem withoutKey_eq_filter (key : String) (pairs : List (String × RawValue)) :
    withoutKey key pairs = pairs.filter fun p => decide (p.1 ∉ [key]) := by
  refine List.filter_congr fun p _ => ?_
  by_cases h : p.1 = key <;> simp [h]

theorem firstText?_eq_none_iff : firstText? key pairs = none ↔ ∀ p ∈ pairs, p.1 = key → p.2.shown = "" := by
  simp only [firstText?, List.find?_eq_none, List.mem_map, List.mem_filter, beq_iff_eq]
  constructor
  · intro h p hp hk
    simpa using h p.2.shown ⟨p, ⟨hp, hk⟩, rfl⟩
  · rintro h text ⟨p, ⟨hp, hk⟩, rfl⟩
    simp [h p hp hk]

theorem exists_of_firstText? (h : firstText? key pairs = some text) :
    ∃ p ∈ pairs, p.1 = key ∧ p.2.shown = text ∧ text ≠ "" := by
  obtain ⟨p, hp, rfl⟩ := List.mem_map.mp (List.mem_of_find?_eq_some h)
  have hne := List.find?_some h
  simp only [List.mem_filter, beq_iff_eq] at hp
  exact ⟨p, hp.1, hp.2, rfl, by simpa using hne⟩

theorem firstText?_withoutKey_self (key : String) (pairs : List (String × RawValue)) :
    firstText? key (withoutKey key pairs) = none := by
  refine firstText?_eq_none_iff.mpr fun p hp hk => ?_
  exact absurd hk (mem_withoutKey.mp hp).2

theorem firstText?_withoutKey_of_ne (h : k ≠ key) : firstText? k (withoutKey key pairs) = firstText? k pairs := by
  unfold firstText? withoutKey
  rw [List.filter_filter]
  congr 2
  refine List.filter_congr fun p _ => ?_
  by_cases hk : p.1 = k
  · simp [hk, h]
  · simp [hk]

/-- A candidate without a text has no effect on the texts of the others. -/
theorem firstText?_withoutKey_of_none (h : firstText? key pairs = none) (k : String) :
    firstText? k (withoutKey key pairs) = firstText? k pairs := by
  by_cases hk : k = key
  · rw [hk, firstText?_withoutKey_self, h]
  · exact firstText?_withoutKey_of_ne hk

theorem filter_withoutKey (key : String) (keys : List String) (pairs : List (String × RawValue)) :
    (withoutKey key pairs).filter (fun p => decide (p.1 ∉ keys)) =
      pairs.filter fun p => decide (p.1 ∉ key :: keys) := by
  rw [withoutKey, List.filter_filter]
  refine List.filter_congr fun p _ => ?_
  by_cases h : p.1 = key <;> simp [h]

/-! ### Taking a text -/

/-- **All that taking a text can do.** Either no candidate has a text, and the pairs of all candidates go; or one of
them is the first that has a text, and its pairs and those of the candidates before it go. -/
theorem takeText_cases (keys : List String) (pairs : List (String × RawValue)) :
    ((∀ k ∈ keys, firstText? k pairs = none) ∧
      takeText keys pairs = (none, pairs.filter fun p => decide (p.1 ∉ keys))) ∨
    ∃ before key after text, keys = before ++ key :: after ∧ (∀ k ∈ before, firstText? k pairs = none) ∧
      firstText? key pairs = some text ∧
      takeText keys pairs = (some (key, text), pairs.filter fun p => decide (p.1 ∉ before ++ [key])) := by
  induction keys generalizing pairs with
  | nil => simp [takeText]
  | cons key keys ih =>
    cases ht : firstText? key pairs with
    | some text =>
      refine Or.inr ⟨[], key, keys, text, rfl, by simp, ht, ?_⟩
      rw [takeText, ht, withoutKey_eq_filter, List.nil_append]
    | none =>
      have hother := firstText?_withoutKey_of_none ht
      have hstep : takeText (key :: keys) pairs = takeText keys (withoutKey key pairs) := by
        rw [takeText, ht]
      rcases ih (withoutKey key pairs) with ⟨hnone, htake⟩ | ⟨before, k, after, text, rfl, hnone, hk, htake⟩
      · refine Or.inl ⟨?_, ?_⟩
        · intro k hk
          rcases List.mem_cons.mp hk with rfl | hk
          · exact ht
          · rw [← hother]
            exact hnone k hk
        · rw [hstep, htake, filter_withoutKey]
      · refine Or.inr ⟨key :: before, k, after, text, rfl, ?_, (hother k).symm.trans hk, ?_⟩
        · intro k' hk'
          rcases List.mem_cons.mp hk' with rfl | hk'
          · exact ht
          · rw [← hother]
            exact hnone k' hk'
        · rw [hstep, htake, filter_withoutKey, List.cons_append]

theorem exists_of_takeText (h : (takeText keys pairs).1 = some (key, text)) :
    ∃ p ∈ pairs, p.1 = key ∧ p.2.shown = text := by
  rcases takeText_cases keys pairs with ⟨-, htake⟩ | ⟨before, k, after, t, -, -, hk, htake⟩
  · rw [htake] at h
    cases h
  · rw [htake] at h
    cases h
    obtain ⟨p, hp, hpk, hpt, -⟩ := exists_of_firstText? hk
    exact ⟨p, hp, hpk, hpt⟩

/-! ### One role -/

/-- A role takes the key `claimed`, or none, from pairs and leaves `rest`. -/
structure Claims (claimed : Option String) (pairs rest : List (String × RawValue)) : Prop where
  sublist : rest.Sublist pairs
  present : ∀ key ∈ claimed, key ∈ pairs.map (·.1)
  gone : ∀ key ∈ claimed, key ∉ rest.map (·.1)
  kept : ∀ p ∈ pairs, p.2.shown ≠ "" → claimed ≠ some p.1 → p ∈ rest

namespace Claims

variable {claimed : Option String}

theorem keys_subset (h : Claims claimed pairs rest) : ∀ key ∈ rest.map (·.1), key ∈ pairs.map (·.1) :=
  fun _ hk => (h.sublist.map _).subset hk

theorem none (pairs : List (String × RawValue)) : Claims none pairs pairs where
  sublist := List.Sublist.refl pairs
  present := by simp
  gone := by simp
  kept := fun _ hp _ _ => hp

theorem withoutKey (h : key ∈ pairs.map (·.1)) : Claims (some key) pairs (withoutKey key pairs) where
  sublist := withoutKey_sublist key pairs
  present := by
    rintro k ⟨⟩
    exact h
  gone := by
    rintro k ⟨⟩ hk
    obtain ⟨p, hp, rfl⟩ := List.mem_map.mp hk
    exact (mem_withoutKey.mp hp).2 rfl
  kept := fun p hp _ hne => mem_withoutKey.mpr ⟨hp, fun heq => hne (by rw [heq])⟩

end Claims

/-- The pairs that the time leaves. -/
def RoleRules.afterTime (rules : RoleRules) (pairs : List (String × RawValue)) : List (String × RawValue) :=
  match rules.time? pairs with
  | some (key, _) => withoutKey key pairs
  | none => pairs

theorem RoleRules.lookup_of_time? {rules : RoleRules} {t : Time.Timestamp} (h : rules.time? pairs = some (key, t)) :
    ∃ value, pairs.lookup key = some value ∧ value.time? rules.year = some t := by
  obtain ⟨k, -, hk⟩ := List.exists_of_findSome?_eq_some h
  simp only [Option.map_eq_some_iff, Option.bind_eq_some_iff, Prod.mk.injEq] at hk
  obtain ⟨t', ⟨value, hlook, hvalue⟩, rfl, rfl⟩ := hk
  exact ⟨value, hlook, hvalue⟩

theorem claims_time (rules : RoleRules) (pairs : List (String × RawValue)) :
    Claims ((rules.time? pairs).map (·.1)) pairs (rules.afterTime pairs) := by
  unfold RoleRules.afterTime
  cases ht : rules.time? pairs with
  | none => exact Claims.none pairs
  | some found =>
    obtain ⟨key, t⟩ := found
    obtain ⟨value, hlook, -⟩ := RoleRules.lookup_of_time? ht
    refine Claims.withoutKey ?_
    by_contra hno
    rw [lookup_eq_none_iff_notMem.mpr hno] at hlook
    cases hlook

theorem claims_takeText (keys : List String) (pairs : List (String × RawValue)) :
    Claims ((takeText keys pairs).1.map (·.1)) pairs (takeText keys pairs).2 := by
  rcases takeText_cases keys pairs with ⟨hnone, htake⟩ | ⟨before, key, after, text, -, hnone, hk, htake⟩
  · rw [htake]
    refine ⟨List.filter_sublist, by simp, by simp, fun p hp hne _ => ?_⟩
    refine List.mem_filter.mpr ⟨hp, ?_⟩
    simp only [decide_eq_true_eq]
    exact fun hmem => hne (firstText?_eq_none_iff.mp (hnone p.1 hmem) p hp rfl)
  · rw [htake]
    refine ⟨List.filter_sublist, ?_, ?_, fun p hp hne hother => ?_⟩
    · rintro k ⟨⟩
      obtain ⟨p, hp, rfl, -⟩ := exists_of_firstText? hk
      exact List.mem_map_of_mem hp
    · rintro k ⟨⟩ hmem
      obtain ⟨p, hp, heq⟩ := List.mem_map.mp hmem
      simp [heq] at hp
    · refine List.mem_filter.mpr ⟨hp, ?_⟩
      simp only [decide_eq_true_eq, List.mem_append, List.mem_singleton, not_or]
      refine ⟨fun hmem => hne (firstText?_eq_none_iff.mp (hnone p.1 hmem) p hp rfl), fun heq => ?_⟩
      exact hother (by simp [heq])

/-! ### All three roles -/

namespace RoleRules

variable (rules : RoleRules) (pairs : List (String × RawValue))

/-- The message of a record with its key, and the pairs that time and message leave. -/
def message : Option (String × String) × List (String × RawValue) :=
  takeText rules.messageKeys (rules.afterTime pairs)

/-- The level of a record with its key, and the pairs that no role has taken. -/
def level : Option (String × String) × List (String × RawValue) := takeText rules.levelKeys (rules.message pairs).2

theorem ofPairs_eq : Event.ofPairs rules pairs =
    { timestamp := (rules.time? pairs).map (·.2)
      message := (rules.message pairs).1.map (·.2)
      level := (rules.level pairs).1.map (·.2)
      fields := Fields.ofList ((rules.level pairs).2.map fun p => (p.1, p.2.shown))
      roleKeys := ⟨(rules.time? pairs).map (·.1), (rules.message pairs).1.map (·.1),
        (rules.level pairs).1.map (·.1)⟩ } := rfl

theorem claims_message : Claims ((rules.message pairs).1.map (·.1)) (rules.afterTime pairs) (rules.message pairs).2 :=
  claims_takeText _ _

theorem claims_level : Claims ((rules.level pairs).1.map (·.1)) (rules.message pairs).2 (rules.level pairs).2 :=
  claims_takeText _ _

end RoleRules

/-- The keys that have a role. -/
def RoleKeys.claimed (k : RoleKeys) : List String := k.time.toList ++ k.message.toList ++ k.level.toList

@[simp]
theorem RoleKeys.mem_claimed {k : RoleKeys} {key : String} :
    key ∈ k.claimed ↔ k.time = some key ∨ k.message = some key ∨ k.level = some key := by
  simp [claimed]

theorem RoleKeys.nodup_claimed {k : RoleKeys} (htm : ∀ key, k.message = some key → k.time ≠ some key)
    (htl : ∀ key, k.level = some key → k.time ≠ some key)
    (hml : ∀ key, k.level = some key → k.message ≠ some key) : k.claimed.Nodup := by
  obtain ⟨time, message, level⟩ := k
  cases time <;> cases message <;> cases level <;> simp_all [claimed]

namespace Event

/-- **The invariant of events.** The keys that have a role are distinct, and none is the key of a field. -/
structure Separated (e : Event) : Prop where
  nodup : e.roleKeys.claimed.Nodup
  apart : ∀ key ∈ e.roleKeys.claimed, e.fields.get? key = none

variable {rules : RoleRules} {pairs : List (String × RawValue)}

theorem get?_ofPairs_eq_none_iff {key : String} :
    (ofPairs rules pairs).fields.get? key = none ↔ key ∉ (rules.level pairs).2.map (·.1) := by
  rw [RoleRules.ofPairs_eq, Fields.get?_ofList_eq_none_iff, List.map_map]
  rfl

/-- What the roles of a record leave has none of their keys. -/
theorem get?_ofPairs_of_claimed {key : String} (h : key ∈ (ofPairs rules pairs).roleKeys.claimed) :
    (ofPairs rules pairs).fields.get? key = none := by
  have ht := claims_time rules pairs
  have hm := rules.claims_message pairs
  have hl := rules.claims_level pairs
  refine get?_ofPairs_eq_none_iff.mpr fun hmem => ?_
  rcases RoleKeys.mem_claimed.mp h with h | h | h
  · exact ht.gone key h (hm.keys_subset key (hl.keys_subset key hmem))
  · exact hm.gone key h (hl.keys_subset key hmem)
  · exact hl.gone key h hmem

theorem nodup_claimed_ofPairs (rules : RoleRules) (pairs : List (String × RawValue)) :
    (ofPairs rules pairs).roleKeys.claimed.Nodup := by
  have ht := claims_time rules pairs
  have hm := rules.claims_message pairs
  have hl := rules.claims_level pairs
  refine RoleKeys.nodup_claimed (fun key h h' => ?_) (fun key h h' => ?_) fun key h h' => ?_
  · exact ht.gone key h' (hm.present key h)
  · exact ht.gone key h' (hm.keys_subset key (hl.present key h))
  · exact hm.gone key h' (hl.present key h)

theorem separated_ofPairs (rules : RoleRules) (pairs : List (String × RawValue)) :
    (ofPairs rules pairs).Separated where
  nodup := nodup_claimed_ofPairs rules pairs
  apart := fun _ h => get?_ofPairs_of_claimed h

/-- A key has a role in an event with the value that it had in a record. -/
def HasRole (e : Event) (year : Int) (p : String × RawValue) : Prop :=
  (e.roleKeys.time = some p.1 ∧ e.timestamp = p.2.time? year) ∨
  (e.roleKeys.message = some p.1 ∧ e.message = some p.2.shown) ∨
  (e.roleKeys.level = some p.1 ∧ e.level = some p.2.shown)

/-- In a record with each key once, a role has the value of the key that it has taken. -/
theorem hasRole_of_claimed {p : String × RawValue} (h : (pairs.map (·.1)).Nodup) (hp : p ∈ pairs)
    (hc : p.1 ∈ (ofPairs rules pairs).roleKeys.claimed) : (ofPairs rules pairs).HasRole rules.year p := by
  have ht := claims_time rules pairs
  have hm := rules.claims_message pairs
  have huniq : ∀ q ∈ pairs, q.1 = p.1 → q = p := fun q hq heq => List.inj_on_of_nodup_map h hq hp heq
  rw [RoleRules.ofPairs_eq] at hc ⊢
  rcases RoleKeys.mem_claimed.mp hc with hk | hk | hk
  · refine Or.inl ⟨hk, ?_⟩
    obtain ⟨⟨key, t⟩, hfound, rfl⟩ := Option.map_eq_some_iff.mp hk
    obtain ⟨value, hlook, hvalue⟩ := RoleRules.lookup_of_time? hfound
    have hq := huniq _ ((lookup_eq_some_iff_mem h).mp hlook) rfl
    rw [← hq]
    simp only [hfound, hvalue, Option.map_some]
  · refine Or.inr (Or.inl ⟨hk, ?_⟩)
    obtain ⟨⟨key, text⟩, htaken, rfl⟩ := Option.map_eq_some_iff.mp hk
    obtain ⟨q, hq, hqk, rfl⟩ := exists_of_takeText htaken
    rw [← huniq q (ht.sublist.subset hq) hqk]
    simp only [htaken, Option.map_some]
  · refine Or.inr (Or.inr ⟨hk, ?_⟩)
    obtain ⟨⟨key, text⟩, htaken, rfl⟩ := Option.map_eq_some_iff.mp hk
    obtain ⟨q, hq, hqk, rfl⟩ := exists_of_takeText htaken
    rw [← huniq q (ht.sublist.subset (hm.sublist.subset hq)) hqk]
    simp only [htaken, Option.map_some]

/-- **Nothing is lost.** In a record with each key once, a pair with a text is a field unless a role has taken its
key. -/
theorem get?_ofPairs_of_mem {p : String × RawValue} (h : (pairs.map (·.1)).Nodup) (hp : p ∈ pairs)
    (hne : p.2.shown ≠ "") :
    (ofPairs rules pairs).fields.get? p.1 =
      if p.1 ∈ (ofPairs rules pairs).roleKeys.claimed then none else some p.2.shown := by
  by_cases hc : p.1 ∈ (ofPairs rules pairs).roleKeys.claimed
  · rw [if_pos hc, get?_ofPairs_of_claimed hc]
  · rw [if_neg hc]
    simp only [RoleKeys.mem_claimed, not_or] at hc
    have ht := claims_time rules pairs
    have hm := rules.claims_message pairs
    have hl := rules.claims_level pairs
    have hleft : p ∈ (rules.level pairs).2 :=
      hl.kept p (hm.kept p (ht.kept p hp hne hc.1) hne hc.2.1) hne hc.2.2
    have hnodup : (((rules.level pairs).2.map fun p => (p.1, p.2.shown)).map (·.1)).Nodup := by
      rw [List.map_map]
      exact ((hl.sublist.trans (hm.sublist.trans ht.sublist)).map _).nodup h
    rw [RoleRules.ofPairs_eq, Fields.get?_ofList_of_nodup hnodup, lookup_eq_some_iff_mem hnodup]
    exact List.mem_map_of_mem (f := fun p : String × RawValue => (p.1, p.2.shown)) hleft

end Event

end LegibleLog
