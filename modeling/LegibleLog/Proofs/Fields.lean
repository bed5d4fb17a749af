import LegibleLog.Event
import Mathlib.Data.List.Nodup

/-!
# Fields as finite maps

A list of pairs is read as a map in which the last pair of a key counts, and `byKey` is that map in order.

* `find?_eq_some_iff_of_nodup` — a search by a name that no two elements share;
* `lookup_byKey` — the value of a key in `byKey pairs` is that of its last pair;
* `Fields.mem_entries_iff` — a pair is an entry exactly when the key has the value;
* `Fields.get?_ofList`, `Fields.get?_insert`, `Fields.get?_insertNew` — what a key has in new fields.
-/

namespace LegibleLog

variable {α : Type} {pairs : List (String × α)} {key : String} {value : α}

/-! ### Lists in which each key occurs once -/

theorem KeysAscend.nodup_keys (h : KeysAscend pairs) : (pairs.map (·.1)).Nodup := by
  refine List.pairwise_map.mpr (List.Pairwise.imp ?_ h)
  intro a b hab heq
  rw [heq] at hab
  simp at hab

theorem lookup_eq_some_iff_mem (h : (pairs.map (·.1)).Nodup) :
    pairs.lookup key = some value ↔ (key, value) ∈ pairs := by
  induction pairs with
  | nil => simp
  | cons p ps ih =>
    obtain ⟨k, v⟩ := p
    simp only [List.map_cons, List.nodup_cons] at h
    obtain ⟨hk, hps⟩ := h
    by_cases heq : key = k
    · subst heq
      have hno : (key, value) ∉ ps := fun hm => hk (List.mem_map_of_mem (f := (·.1)) hm)
      simp [hno, eq_comm]
    · have hne : (key == k) = false := by simpa using heq
      simp [List.lookup_cons, hne, ih hps, heq]

/-- With each key once, it does not matter from which end a key is looked for. -/
theorem lookup_reverse_of_nodup (h : (pairs.map (·.1)).Nodup) : pairs.reverse.lookup key = pairs.lookup key := by
  have hr : (pairs.reverse.map (·.1)).Nodup := by
    rw [List.map_reverse]
    exact List.nodup_reverse.mpr h
  refine Option.ext fun value => ?_
  rw [lookup_eq_some_iff_mem hr, lookup_eq_some_iff_mem h, List.mem_reverse]

/-- What is looked for by a key that occurs once is the one that has this key. -/
theorem find?_eq_some_iff_of_nodup {β : Type} [BEq β] [LawfulBEq β] {l : List α} {f : α → β} (h : (l.map f).Nodup)
    {a : α} {b : β} : l.find? (f · == b) = some a ↔ a ∈ l ∧ f a = b := by
  constructor
  · intro hfind
    have hkey := List.find?_some hfind
    exact ⟨List.mem_of_find?_eq_some hfind, eq_of_beq hkey⟩
  · rintro ⟨ha, rfl⟩
    cases hfind : l.find? (f · == f a) with
    | none => exact absurd (beq_self_eq_true _) (List.find?_eq_none.mp hfind a ha)
    | some found =>
      have hkey := List.find?_some hfind
      rw [List.inj_on_of_nodup_map h (List.mem_of_find?_eq_some hfind) ha (eq_of_beq hkey)]

/-! ### Pairs by key -/

/-- **The last pair of a key counts.** -/
theorem lookup_byKey (pairs : List (String × α)) (key : String) :
    (byKey pairs).lookup key = pairs.reverse.lookup key := by
  have hsame : (fun p : String × α => if compare p.1 key = .eq then some p.2 else none) =
      fun p => if key == p.1 then some p.2 else none := by
    funext p
    by_cases h : p.1 = key
    · simp [h]
    · have hne : ¬ key = p.1 := fun heq => h heq.symm
      simp [h, hne]
  refine Option.ext fun value => ?_
  rw [lookup_eq_some_iff_mem (keysAscend_byKey pairs).nodup_keys, byKey,
    Std.TreeMap.mem_toList_iff_getElem?_eq_some, Std.TreeMap.ofList_eq_insertMany_empty,
    Std.TreeMap.getElem?_insertMany_list, List.findSomeRev?_eq_findSome?_reverse, List.lookup_eq_findSome?, ← hsame]
  simp

theorem mem_of_mem_byKey {p : String × α} (h : p ∈ byKey pairs) : p ∈ pairs := by
  have hlookup := (lookup_eq_some_iff_mem (keysAscend_byKey pairs).nodup_keys).mpr h
  rw [lookup_byKey] at hlookup
  obtain ⟨before, after, hsplit, -⟩ := List.lookup_eq_some_iff.mp hlookup
  rw [← List.mem_reverse, hsplit]
  exact List.mem_append_right _ List.mem_cons_self

theorem lookup_eq_none_iff_notMem : pairs.lookup key = none ↔ key ∉ pairs.map (·.1) := by
  simp only [List.lookup_eq_none_iff, List.mem_map, not_exists, not_and, bne_iff_ne, ne_eq]
  exact ⟨fun h p hp heq => h p hp heq.symm, fun h p hp heq => h p hp heq.symm⟩

@[simp]
theorem mem_keys_byKey_iff : key ∈ (byKey pairs).map (·.1) ↔ key ∈ pairs.map (·.1) := by
  rw [← not_iff_not, ← lookup_eq_none_iff_notMem, lookup_byKey, lookup_eq_none_iff_notMem, List.map_reverse,
    List.mem_reverse]

@[simp]
theorem mem_distinctKeys_iff {keys : List String} : key ∈ distinctKeys keys ↔ key ∈ keys := by
  have hfst : (fun p : String × Unit => p.1) ∘ (fun key : String => (key, ())) = id := rfl
  rw [distinctKeys, mem_keys_byKey_iff, List.map_map, hfst, List.map_id]

namespace Fields

variable {fields : Fields} {key : String} {value : String}

theorem mem_entries_iff : (key, value) ∈ fields.entries ↔ fields.get? key = some value :=
  (lookup_eq_some_iff_mem fields.ascend.nodup_keys).symm

@[simp]
theorem mem_keys_iff : key ∈ fields.keys ↔ ∃ value, fields.get? key = some value := by
  simp [keys, ← mem_entries_iff]

theorem get?_ofList (pairs : List (String × String)) (key : String) :
    (ofList pairs).get? key = pairs.reverse.lookup key :=
  lookup_byKey pairs key

theorem get?_ofList_of_nodup {pairs : List (String × String)} (h : (pairs.map (·.1)).Nodup) (key : String) :
    (ofList pairs).get? key = pairs.lookup key := by
  rw [get?_ofList, lookup_reverse_of_nodup h]

theorem get?_ofList_eq_none_iff {pairs : List (String × String)} :
    (ofList pairs).get? key = none ↔ key ∉ pairs.map (·.1) := by
  rw [get?_ofList, lookup_eq_none_iff_notMem, List.map_reverse, List.mem_reverse]

@[simp]
theorem get?_insert (fields : Fields) (key value other : String) :
    (fields.insert key value).get? other = if other = key then some value else fields.get? other := by
  rw [insert, get?_ofList, List.reverse_append, List.reverse_singleton, List.lookup_append,
    lookup_reverse_of_nodup fields.ascend.nodup_keys, List.lookup_singleton]
  by_cases h : other = key
  · simp [h]
  · simp [h, get?]

@[simp]
theorem get?_insertNew (fields : Fields) (key value other : String) :
    (fields.insertNew key value).get? other =
      if other = key then some ((fields.get? key).getD value) else fields.get? other := by
  unfold insertNew
  split
  · next old hold =>
    by_cases h : other = key
    · simp [h, hold]
    · simp [h]
  · next hnone => simp [get?_insert, hnone]

end Fields

end LegibleLog
