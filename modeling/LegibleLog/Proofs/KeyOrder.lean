import LegibleLog.Proofs.ByteOrder
import LegibleLog.Proofs.Fields
import LegibleLog.Render.Line

/-!
# The order of the fields that are shown

* `pairwise_mergeSort_size` — when a list that is in some order is sorted by sizes, elements of one size keep this order;
* `Options.Precedes` — one key stands before another: by its bytes, or by the number of its bytes first;
* `Options.ListsShown` — a list has the keys that are shown, each once, in this order;
* `Options.FoundFrom` — a list is found when the keys of a map, in the order in which the map happens to give them, are
  sorted by their bytes and then by length;
* `Options.shownKeys_unique` — in both senses, the list of the keys that are shown is the only one.
-/

namespace LegibleLog

open Text

/-! ### Sorting by sizes -/

section Sorting

variable {α : Type} (size : α → Nat)

theorem size_le_trans (a b c : α) (hab : decide (size a ≤ size b) = true) (hbc : decide (size b ≤ size c) = true) :
    decide (size a ≤ size c) = true := by
  rw [decide_eq_true_eq] at hab hbc ⊢
  omega

theorem size_le_total (a b : α) : (decide (size a ≤ size b) || decide (size b ≤ size a)) = true := by
  rw [Bool.or_eq_true, decide_eq_true_eq, decide_eq_true_eq]
  omega

/-- The elements of one size stay as they stand. -/
theorem filter_mergeSort_size (k : Nat) (l : List α) :
    (l.mergeSort fun a b => size a ≤ size b).filter (size · == k) = l.filter (size · == k) := by
  have hgroup : (l.filter (size · == k)).Pairwise fun a b => decide (size a ≤ size b) = true := by
    refine List.pairwise_filter.mpr (List.pairwise_of_forall fun a b ha hb => ?_)
    simp only [beq_iff_eq] at ha hb
    simp [ha, hb]
  have hsub := List.sublist_mergeSort (size_le_trans size) (size_le_total size) hgroup List.filter_sublist
  have hsub' := hsub.filter (size · == k)
  simp only [List.filter_filter, Bool.and_self] at hsub'
  exact (hsub'.eq_of_length ((List.mergeSort_perm l _).filter _).length_eq.symm).symm

theorem pairwise_mergeSort_size {l : List α} {R : α → α → Prop} (h : l.Pairwise R) :
    (l.mergeSort fun a b => size a ≤ size b).Pairwise fun a b => size a < size b ∨ size a = size b ∧ R a b := by
  have hsizes := List.pairwise_mergeSort (size_le_trans size) (size_le_total size) l
  rw [List.pairwise_iff_forall_sublist] at h hsizes ⊢
  intro a b hab
  obtain hlt | heq := (of_decide_eq_true (hsizes hab)).lt_or_eq
  · exact Or.inl hlt
  · have hgroup := hab.filter (size · == size b)
    rw [filter_mergeSort_size, List.filter_eq_self.mpr (by simp [heq])] at hgroup
    exact Or.inr ⟨heq, h (hgroup.trans List.filter_sublist)⟩

end Sorting

/-! ### Keys in order -/

/-- Fields stand in the order of the bytes of their keys. -/
theorem Fields.pairwise_keys (fields : Fields) : fields.keys.Pairwise fun a b => encode a < encode b :=
  List.pairwise_map.mpr (fields.ascend.imp encode_lt_of_compare)

namespace Options

variable {o : Options} {fields : Fields} {keys keys' : List String}

/-- One key stands before another: by its bytes, and with `sortLongest` by the number of its bytes first. -/
def Precedes (o : Options) (a b : String) : Prop :=
  if o.sortLongest then
    (encode a).length < (encode b).length ∨ (encode a).length = (encode b).length ∧ encode a < encode b
  else encode a < encode b

theorem Precedes.asymm {a b : String} (h : o.Precedes a b) : ¬ o.Precedes b a := by
  unfold Precedes at h ⊢
  split at h
  · next hlong =>
    rw [if_pos hlong]
    rintro (hlt | ⟨heq, hlt⟩)
    · omega
    · obtain hlt' | ⟨-, hlt'⟩ := h
      · omega
      · exact List.lt_asymm hlt hlt'
  · next hshort =>
    rw [if_neg hshort]
    exact List.lt_asymm h

/-- Keys in the order of their lengths, where that is asked for. -/
def grouped (o : Options) (keys : List String) : List String :=
  if o.sortLongest then keys.mergeSort fun a b => a.utf8ByteSize ≤ b.utf8ByteSize else keys

theorem grouped_perm (o : Options) (keys : List String) : (o.grouped keys).Perm keys := by
  unfold grouped
  split
  · exact List.mergeSort_perm keys _
  · exact List.Perm.refl keys

/-- What is in the order of the bytes comes into the order that is asked for. -/
theorem pairwise_grouped (h : keys.Pairwise fun a b => encode a < encode b) : (o.grouped keys).Pairwise o.Precedes := by
  unfold grouped Precedes
  split
  · simp only [length_encode]
    exact pairwise_mergeSort_size String.utf8ByteSize h
  · exact h

theorem pairwise_filter_keys (o : Options) (fields : Fields) :
    (fields.keys.filter o.showsField).Pairwise fun a b => encode a < encode b :=
  fields.pairwise_keys.sublist List.filter_sublist

theorem shownKeys_eq (o : Options) (fields : Fields) :
    o.shownKeys fields = o.grouped (fields.keys.filter o.showsField) := by
  unfold shownKeys shownFields grouped Fields.keys
  rw [List.filter_map]
  split
  · exact List.map_mergeSort fun _ _ _ _ => rfl
  · rfl

/-! ### The keys that are shown -/

/-- A list has the keys of the fields that are shown, each once, in the order that is asked for. -/
structure ListsShown (o : Options) (fields : Fields) (keys : List String) : Prop where
  mem_iff : ∀ key, key ∈ keys ↔ (∃ value, fields.get? key = some value) ∧ o.showsField key = true
  nodup : keys.Nodup
  ascend : keys.Pairwise o.Precedes

theorem listsShown_shownKeys (o : Options) (fields : Fields) : o.ListsShown fields (o.shownKeys fields) := by
  have hascend : (o.shownKeys fields).Pairwise o.Precedes := by
    rw [shownKeys_eq]
    exact pairwise_grouped (o.pairwise_filter_keys fields)
  refine ⟨fun key => ?_, hascend.imp fun h heq => ?_, hascend⟩
  · rw [shownKeys_eq, (o.grouped_perm _).mem_iff, List.mem_filter, Fields.mem_keys_iff]
  · subst heq
    exact h.asymm h

theorem ListsShown.unique (h : o.ListsShown fields keys) (h' : o.ListsShown fields keys') : keys = keys' := by
  have hperm : keys.Perm keys' :=
    (List.perm_ext_iff_of_nodup h.nodup h'.nodup).mpr fun key => (h.mem_iff key).trans (h'.mem_iff key).symm
  exact hperm.eq_of_pairwise (fun a b _ _ hab hba => absurd hba hab.asymm) h.ascend h'.ascend

/-- A list is found when keys, in the order in which they are come upon, are sorted: those that are shown by their bytes,
in any way of sorting, and then by length if that is asked for, so that keys of one length stay as they stand. -/
def FoundFrom (o : Options) (visited keys : List String) : Prop :=
  ∃ sorted : List String, sorted.Perm (visited.filter o.showsField) ∧
    sorted.Pairwise (fun a b => encode a ≤ encode b) ∧ keys = o.grouped sorted

theorem eq_of_perm_of_pairwise_le (hperm : keys.Perm keys') (h : keys.Pairwise fun a b => encode a ≤ encode b)
    (h' : keys'.Pairwise fun a b => encode a < encode b) : keys = keys' := by
  refine hperm.eq_of_pairwise (fun a b _ _ hab hba => ?_) h (h'.imp List.le_of_lt)
  exact encode_injective (List.le_antisymm hab hba)

theorem foundFrom_iff {visited : List String} (hvisited : visited.Perm fields.keys) :
    o.FoundFrom visited keys ↔ keys = o.shownKeys fields := by
  have hbytes := o.pairwise_filter_keys fields
  rw [shownKeys_eq]
  constructor
  · rintro ⟨sorted, hperm, hsorted, rfl⟩
    rw [eq_of_perm_of_pairwise_le (hperm.trans (hvisited.filter _)) hsorted hbytes]
  · intro h
    exact ⟨_, (hvisited.filter _).symm, hbytes.imp List.le_of_lt, h⟩

/-- **The order of the fields.** The keys that an event shows are the only list that has each of them once and in order,
and sorting finds this list whatever the order in which the keys are come upon. -/
theorem shownKeys_unique (o : Options) (e : Event) :
    (∀ keys, o.ListsShown e.fields keys ↔ keys = o.shownKeys e.fields) ∧
      ∀ visited, visited.Perm e.fields.keys → ∀ keys, o.FoundFrom visited keys ↔ keys = o.shownKeys e.fields := by
  refine ⟨fun keys => ⟨fun h => h.unique (o.listsShown_shownKeys e.fields), ?_⟩, fun visited hvisited keys => ?_⟩
  · rintro rfl
    exact o.listsShown_shownKeys e.fields
  · exact foundFrom_iff hvisited

/-- Five keys come upon in no order. The letter in two bytes stands among the keys of two bytes, and behind all letters
in one byte. -/
theorem shownKeys_unique_of_five :
    let e : Event := ⟨none, none, none,
      Fields.ofList [("zz", "1"), ("a", "2"), ("é", "3"), ("mmm", "4"), ("bb", "5")], ⟨none, none, none⟩⟩
    ["mmm", "é", "a", "zz", "bb"].Perm e.fields.keys ∧
      ∀ keys, ({} : Options).FoundFrom ["mmm", "é", "a", "zz", "bb"] keys ↔ keys = ["a", "bb", "zz", "é", "mmm"] := by
  intro e
  have hfields : e.fields.keys = ["a", "bb", "mmm", "zz", "é"] := by decide
  have hvisited : ["mmm", "é", "a", "zz", "bb"].Perm e.fields.keys := by
    rw [hfields]
    decide
  have hlists : ({} : Options).ListsShown e.fields ["a", "bb", "zz", "é", "mmm"] := by
    refine ⟨fun key => ?_, by decide, ?_⟩
    · have hperm : ["a", "bb", "zz", "é", "mmm"].Perm e.fields.keys := by
        rw [hfields]
        decide
      have hshow : ({} : Options).showsField key = true := rfl
      rw [hperm.mem_iff, Fields.mem_keys_iff, and_iff_left hshow]
    · unfold Precedes
      decide
  obtain ⟨hunique, hfound⟩ := shownKeys_unique {} e
  refine ⟨hvisited, fun keys => ?_⟩
  rw [(hunique _).mp hlists]
  exact hfound _ hvisited keys

end Options

end LegibleLog
