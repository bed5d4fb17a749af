import Mathlib.Data.List.TakeWhile

/-!
# Cutting lists

* `cut_behind`, `cut_unique` — where a list is cut at an element;
* `takeWhile_append_eq`, `run_unique` — where a run of elements with a property ends;
* `Takes p cs rest` — what is in front of `rest` in `cs` has the property `p`.
-/

namespace LegibleLog

variable {α : Type}

/-- A list that begins with `front` is cut at `b`, which `front` does not have: the cut lies behind `front`. -/
theorem cut_behind {front rest before after : List α} {b : α} (hb : b ∉ front)
    (h : front ++ rest = before ++ b :: after) : ∃ more, before = front ++ more ∧ rest = more ++ b :: after := by
  rcases List.append_eq_append_iff.mp h with ⟨more, hbefore, hrest⟩ | ⟨more, hfront, hrest⟩
  · exact ⟨more, hbefore, hrest⟩
  · cases more with
    | nil => exact ⟨[], by simpa using hfront.symm, hrest.symm⟩
    | cons c more =>
      obtain ⟨rfl, -⟩ := List.cons.inj hrest
      exact absurd (hfront ▸ List.mem_append_right _ List.mem_cons_self) hb

/-- A list has one cut at the first `b`. -/
theorem cut_unique {front rest before after : List α} {b : α} (hfront : b ∉ front) (hbefore : b ∉ before)
    (h : front ++ b :: rest = before ++ b :: after) : front = before ∧ rest = after := by
  obtain ⟨more, rfl, hrest⟩ := cut_behind hfront h
  cases more with
  | nil => exact ⟨(List.append_nil front).symm, (List.cons.inj hrest).2⟩
  | cons c more =>
    obtain ⟨rfl, -⟩ := List.cons.inj hrest
    exact absurd (List.mem_append_right front List.mem_cons_self) hbefore

/-- A run of elements with a property ends where the first element without it stands. -/
theorem takeWhile_append_eq {p : α → Bool} {run rest : List α} (hrun : ∀ c ∈ run, p c = true)
    (hrest : ∀ c ∈ rest.head?, p c = false) : (run ++ rest).takeWhile p = run ∧ (run ++ rest).dropWhile p = rest := by
  rw [List.takeWhile_append_of_pos hrun, List.dropWhile_append_of_pos hrun]
  cases rest with
  | nil => exact ⟨List.append_nil run, rfl⟩
  | cons c rest =>
    have hc := hrest c rfl
    rw [List.takeWhile_cons_of_neg (by simp [hc]), List.dropWhile_cons_of_neg (by simp [hc])]
    exact ⟨List.append_nil run, rfl⟩

/-- So it ends in one place. -/
theorem run_unique {p : α → Bool} {run rest run' rest' : List α} (hrun : ∀ c ∈ run, p c = true)
    (hrest : ∀ c ∈ rest.head?, p c = false) (hrun' : ∀ c ∈ run', p c = true) (hrest' : ∀ c ∈ rest'.head?, p c = false)
    (h : run ++ rest = run' ++ rest') : run = run' ∧ rest = rest' := by
  obtain ⟨htake, hdrop⟩ := takeWhile_append_eq hrun hrest
  obtain ⟨htake', hdrop'⟩ := takeWhile_append_eq hrun' hrest'
  rw [h] at htake hdrop
  exact ⟨htake.symm.trans htake', hdrop.symm.trans hdrop'⟩

/-- What is left after a run does not begin with one more of its elements. -/
theorem forall_head?_dropWhile (p : α → Bool) (l : List α) : ∀ c ∈ (l.dropWhile p).head?, p c = false := by
  intro c hc
  have hhead := List.head?_dropWhile_not p l
  rw [Option.mem_def.mp hc] at hhead
  simpa using hhead

theorem forall_head?_append {p : α → Prop} {front rest : List α} (hne : front ≠ []) (h : ∀ c ∈ front, p c) :
    ∀ c ∈ (front ++ rest).head?, p c := by
  obtain ⟨c, more, rfl⟩ := List.exists_cons_of_ne_nil hne
  rintro d ⟨⟩
  exact h c List.mem_cons_self

/-- A reader that leaves `rest` of `cs` has taken elements with a property. -/
def Takes (p : α → Prop) (cs rest : List α) : Prop := ∃ taken, cs = taken ++ rest ∧ ∀ c ∈ taken, p c

namespace Takes

variable {p q : α → Prop} {cs rest more : List α}

theorem refl (p : α → Prop) (cs : List α) : Takes p cs cs := ⟨[], rfl, List.forall_mem_nil _⟩

theorem trans (h : Takes p cs rest) (h' : Takes p rest more) : Takes p cs more := by
  obtain ⟨taken, rfl, htaken⟩ := h
  obtain ⟨taken', rfl, htaken'⟩ := h'
  exact ⟨taken ++ taken', (List.append_assoc ..).symm, List.forall_mem_append.mpr ⟨htaken, htaken'⟩⟩

theorem cons {c : α} (hc : p c) (h : Takes p cs rest) : Takes p (c :: cs) rest := by
  obtain ⟨taken, rfl, htaken⟩ := h
  exact ⟨c :: taken, rfl, List.forall_mem_cons.mpr ⟨hc, htaken⟩⟩

theorem mono (hpq : ∀ c, p c → q c) (h : Takes p cs rest) : Takes q cs rest := by
  obtain ⟨taken, rfl, htaken⟩ := h
  exact ⟨taken, rfl, fun c hc => hpq c (htaken c hc)⟩

theorem dropWhile {f : α → Bool} (h : ∀ c, f c = true → p c) (cs : List α) : Takes p cs (cs.dropWhile f) :=
  ⟨cs.takeWhile f, List.takeWhile_append_dropWhile.symm, fun c hc => h c (List.mem_takeWhile_imp hc)⟩

end Takes

end LegibleLog
