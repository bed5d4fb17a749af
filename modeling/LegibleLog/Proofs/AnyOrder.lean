import LegibleLog.Proofs.Classification
import Mathlib.Data.List.Perm.Basic

/-!
# Pairs in any order

Where each key occurs once, an event does not depend on the order of the pairs that it is made of.

* `lookup_eq_of_perm`, `firstText?_eq_of_perm` — what a key has, and its text;
* `KeysAscend.eq_of_lookup` — pairs in the order of their keys are told by what each key has;
* `takeText_perm` — the same candidate takes a role, and the same pairs remain, though in another order;
* `Fields.ext_get?` — fields are told by what each key has;
* `Event.ofPairs_eq_of_perm` — the whole event.
-/

namespace LegibleLog

/-! ### Lists of pairs -/

section Lists

variable {α : Type} {pairs pairs' : List (String × α)}

theorem nodup_keys_of_perm (h : pairs.Perm pairs') (hkeys : (pairs.map (·.1)).Nodup) : (pairs'.map (·.1)).Nodup :=
  (h.map (·.1)).nodup_iff.mp hkeys

theorem lookup_eq_of_perm (h : pairs.Perm pairs') (hkeys : (pairs.map (·.1)).Nodup) (key : String) :
    pairs.lookup key = pairs'.lookup key := by
  refine Option.ext fun value => ?_
  rw [lookup_eq_some_iff_mem hkeys, lookup_eq_some_iff_mem (nodup_keys_of_perm h hkeys), h.mem_iff]

/-- Pairs in the order of their keys are told by what each key has. -/
theorem KeysAscend.eq_of_lookup (h : KeysAscend pairs) (h' : KeysAscend pairs')
    (hsame : ∀ key, pairs.lookup key = pairs'.lookup key) : pairs = pairs' := by
  have hmem : ∀ p, p ∈ pairs ↔ p ∈ pairs' := by
    rintro ⟨key, value⟩
    rw [← lookup_eq_some_iff_mem h.nodup_keys, ← lookup_eq_some_iff_mem h'.nodup_keys, hsame]
  have hperm : pairs.Perm pairs' :=
    (List.perm_ext_iff_of_nodup h.nodup_keys.of_map h'.nodup_keys.of_map).mpr hmem
  refine hperm.eq_of_pairwise (fun a b _ _ hab hba => ?_) h h'
  have hswap : compare a.1 b.1 = .gt := Std.OrientedCmp.gt_of_lt hba
  rw [hab] at hswap
  cases hswap

theorem lookup_map_snd {β : Type} (f : α → β) (pairs : List (String × α)) (key : String) :
    (pairs.map fun p => (p.1, f p.2)).lookup key = (pairs.lookup key).map f := by
  induction pairs with
  | nil => rfl
  | cons p pairs ih =>
    obtain ⟨k, value⟩ := p
    by_cases h : key = k
    · simp [h]
    · have hne : (key == k) = false := by simpa using h
      simp [List.lookup_cons, hne, ih]

/-- Pairs that are in order already stay as they are. -/
theorem KeysAscend.byKey_eq (h : KeysAscend pairs) : byKey pairs = pairs :=
  (keysAscend_byKey pairs).eq_of_lookup h fun key => by rw [lookup_byKey, lookup_reverse_of_nodup h.nodup_keys]

/-- Values may be replaced before or after pairs are put in order. -/
theorem byKey_map_snd {β : Type} (f : α → β) (pairs : List (String × α)) :
    byKey (pairs.map fun p => (p.1, f p.2)) = (byKey pairs).map fun p => (p.1, f p.2) := by
  refine (keysAscend_byKey _).eq_of_lookup (List.pairwise_map.mpr (keysAscend_byKey pairs)) fun key => ?_
  rw [lookup_byKey, ← List.map_reverse, lookup_map_snd, lookup_map_snd, lookup_byKey]

end Lists

theorem Fields.ext_get? {fields fields' : Fields} (h : ∀ key, fields.get? key = fields'.get? key) :
    fields = fields' := by
  obtain ⟨entries, hentries⟩ := fields
  obtain ⟨entries', hentries'⟩ := fields'
  obtain rfl : entries = entries' := hentries.eq_of_lookup hentries' h
  rfl

theorem Fields.ofList_entries (fields : Fields) : ofList fields.entries = fields := by
  refine ext_get? fun key => ?_
  rw [get?_ofList_of_nodup fields.ascend.nodup_keys]
  rfl

theorem Fields.ofList_eq_of_perm {pairs pairs' : List (String × String)} (h : pairs.Perm pairs')
    (hkeys : (pairs.map (·.1)).Nodup) : ofList pairs = ofList pairs' := by
  refine ext_get? fun key => ?_
  rw [get?_ofList_of_nodup hkeys, get?_ofList_of_nodup (nodup_keys_of_perm h hkeys), lookup_eq_of_perm h hkeys]

/-! ### Roles -/

variable {pairs pairs' : List (String × RawValue)}

/-- With each key once, the first text of a key is its one text that is not empty. -/
theorem firstText?_eq_some_iff (hkeys : (pairs.map (·.1)).Nodup) {key text : String} :
    firstText? key pairs = some text ↔ ∃ p ∈ pairs, p.1 = key ∧ p.2.shown = text ∧ text ≠ "" := by
  refine ⟨exists_of_firstText?, ?_⟩
  rintro ⟨p, hp, rfl, rfl, hne⟩
  cases hfirst : firstText? p.1 pairs with
  | none => exact absurd (firstText?_eq_none_iff.mp hfirst p hp rfl) hne
  | some other =>
    obtain ⟨q, hq, hkey, rfl, -⟩ := exists_of_firstText? hfirst
    rw [List.inj_on_of_nodup_map hkeys hq hp hkey]

theorem firstText?_eq_of_perm (h : pairs.Perm pairs') (hkeys : (pairs.map (·.1)).Nodup) (key : String) :
    firstText? key pairs = firstText? key pairs' := by
  refine Option.ext fun text => ?_
  rw [firstText?_eq_some_iff hkeys, firstText?_eq_some_iff (nodup_keys_of_perm h hkeys)]
  simp only [h.mem_iff]

theorem nodup_keys_withoutKey (hkeys : (pairs.map (·.1)).Nodup) (key : String) :
    ((withoutKey key pairs).map (·.1)).Nodup :=
  hkeys.sublist ((withoutKey_sublist key pairs).map _)

/-- **Taking a text in any order.** -/
theorem takeText_perm (h : pairs.Perm pairs') (hkeys : (pairs.map (·.1)).Nodup) (keys : List String) :
    (takeText keys pairs).1 = (takeText keys pairs').1 ∧ (takeText keys pairs).2.Perm (takeText keys pairs').2 := by
  induction keys generalizing pairs pairs' with
  | nil => exact ⟨rfl, h⟩
  | cons key keys ih =>
    have hwithout : (withoutKey key pairs).Perm (withoutKey key pairs') := h.filter _
    rw [takeText, takeText, ← firstText?_eq_of_perm h hkeys]
    cases firstText? key pairs with
    | some text => exact ⟨rfl, hwithout⟩
    | none => exact ih hwithout (nodup_keys_withoutKey hkeys key)

namespace RoleRules

variable (rules : RoleRules)

theorem time?_eq_of_perm (h : pairs.Perm pairs') (hkeys : (pairs.map (·.1)).Nodup) :
    rules.time? pairs = rules.time? pairs' := by
  unfold time?
  simp only [lookup_eq_of_perm h hkeys]

theorem afterTime_perm (h : pairs.Perm pairs') (hkeys : (pairs.map (·.1)).Nodup) :
    (rules.afterTime pairs).Perm (rules.afterTime pairs') := by
  unfold afterTime
  rw [← rules.time?_eq_of_perm h hkeys]
  split
  · exact h.filter _
  · exact h

end RoleRules

/-- **Events in any order.** Where each key occurs once, the pairs of a record make the same event in any order. -/
theorem Event.ofPairs_eq_of_perm (rules : RoleRules) (h : pairs.Perm pairs') (hkeys : (pairs.map (·.1)).Nodup) :
    Event.ofPairs rules pairs = Event.ofPairs rules pairs' := by
  have hafter := (claims_time rules pairs).sublist
  have hmessage := (rules.claims_message pairs).sublist
  have hlevel := (rules.claims_level pairs).sublist
  have hkeysAfter := hkeys.sublist (hafter.map (·.1))
  have hkeysMessage := hkeysAfter.sublist (hmessage.map (·.1))
  obtain ⟨hm, hmrest⟩ := takeText_perm (rules.afterTime_perm h hkeys) hkeysAfter rules.messageKeys
  obtain ⟨hl, hlrest⟩ := takeText_perm hmrest hkeysMessage rules.levelKeys
  have hfields : Fields.ofList ((rules.level pairs).2.map fun p => (p.1, p.2.shown)) =
      Fields.ofList ((rules.level pairs').2.map fun p => (p.1, p.2.shown)) := by
    refine Fields.ofList_eq_of_perm (hlrest.map _) ?_
    rw [List.map_map]
    exact hkeysMessage.sublist (hlevel.map (·.1))
  rw [RoleRules.ofPairs_eq, RoleRules.ofPairs_eq, rules.time?_eq_of_perm h hkeys, hfields]
  unfold RoleRules.level RoleRules.message
  rw [hm, hl]

end LegibleLog
