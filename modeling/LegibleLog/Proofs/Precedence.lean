import LegibleLog.Proofs.AnyOrder

/-!
# Which pairs a role takes

What a record says, told from its pairs and the lists of candidates without going through them.

* `FirstIn P before a l` — the first element of a list with a property, and what stands before it;
* `HasTime`, `HasText`, `HasLast` — what a key of a record stands for as a time, as a text and as a field;
* `Wins Has keys past found` — the first candidate that has something, and the candidates before it; `Wins.unique` says
  that there is one outcome only;
* `wins_time?`, `wins_takeText` — the candidates that win are those that are found;
* `Event.Classified` — the roles one after the other, each on what the one before has left, and the fields;
  `Event.classified_iff` says that this is the event of a record and no other is.
-/

namespace LegibleLog

/-! ### The first of its kind -/

section First

variable {α : Type} {P : α → Prop} {before before' : List α} {a a' : α} {l : List α}

/-- The first element of a list with a property, and the elements before it. -/
structure FirstIn (P : α → Prop) (before : List α) (a : α) (l : List α) : Prop where
  split : ∃ after, l = before ++ a :: after
  has : P a
  without : ∀ b ∈ before, ¬ P b

theorem FirstIn.mem (h : FirstIn P before a l) : a ∈ l := by
  obtain ⟨after, rfl⟩ := h.split
  exact List.mem_append_right _ List.mem_cons_self

theorem FirstIn.unique (h : FirstIn P before a l) (h' : FirstIn P before' a' l) : before = before' ∧ a = a' := by
  obtain ⟨⟨after, rfl⟩, ha, hbefore⟩ := h
  obtain ⟨⟨after', hsplit⟩, ha', hbefore'⟩ := h'
  rcases List.append_eq_append_iff.mp hsplit with ⟨more, rfl, hrest⟩ | ⟨more, rfl, hrest⟩
  · cases more with
    | nil => exact ⟨(List.append_nil before).symm, (List.cons.inj hrest).1⟩
    | cons b more =>
      obtain ⟨rfl, -⟩ := List.cons.inj hrest
      exact absurd ha (hbefore' _ (List.mem_append_right _ List.mem_cons_self))
  · cases more with
    | nil => exact ⟨List.append_nil before', (List.cons.inj hrest).1.symm⟩
    | cons b more =>
      obtain ⟨rfl, -⟩ := List.cons.inj hrest
      exact absurd ha' (hbefore _ (List.mem_append_right _ List.mem_cons_self))

end First

/-! ### What a key stands for -/

section Keys

variable {year : Int} {pairs : List (String × RawValue)} {key text : String} {t : Time.Timestamp}

/-- The first pair of a key is a time. -/
def HasTime (year : Int) (pairs : List (String × RawValue)) (key : String) (t : Time.Timestamp) : Prop :=
  ∃ before value, FirstIn (·.1 = key) before (key, value) pairs ∧ value.time? year = some t

/-- The first pair of a key that is not empty has this text. -/
def HasText (pairs : List (String × RawValue)) (key text : String) : Prop :=
  ∃ before value, FirstIn (fun p => p.1 = key ∧ p.2.shown ≠ "") before (key, value) pairs ∧ value.shown = text

/-- The last pair of a key has this text. -/
def HasLast (pairs : List (String × RawValue)) (key text : String) : Prop :=
  ∃ before value after, pairs = before ++ (key, value) :: after ∧ key ∉ after.map (·.1) ∧ value.shown = text

theorem hasTime_iff : HasTime year pairs key t ↔ (pairs.lookup key).bind (·.time? year) = some t := by
  simp only [HasTime, Option.bind_eq_some_iff, List.lookup_eq_some_iff, bne_iff_ne]
  constructor
  · rintro ⟨before, value, ⟨⟨after, rfl⟩, -, hbefore⟩, ht⟩
    exact ⟨value, ⟨before, after, rfl, fun p hp heq => hbefore p hp heq.symm⟩, ht⟩
  · rintro ⟨value, ⟨before, after, rfl, hbefore⟩, ht⟩
    exact ⟨before, value, ⟨⟨after, rfl⟩, rfl, fun p hp heq => hbefore p hp heq.symm⟩, ht⟩

theorem firstText?_cons_of_ne {value : RawValue} {k : String} (h : ¬ (k = key ∧ value.shown ≠ "")) :
    firstText? key ((k, value) :: pairs) = firstText? key pairs := by
  unfold firstText?
  by_cases hk : k = key
  · have hempty : value.shown = "" := by
      by_contra hne
      exact h ⟨hk, hne⟩
    simp [hk, hempty]
  · simp [hk]

theorem firstText?_cons_of_text {value : RawValue} (h : value.shown ≠ "") :
    firstText? key ((key, value) :: pairs) = some value.shown := by
  simp [firstText?, h]

theorem hasText_iff : HasText pairs key text ↔ firstText? key pairs = some text := by
  constructor
  · rintro ⟨before, value, ⟨⟨after, rfl⟩, ⟨-, hne⟩, hbefore⟩, rfl⟩
    induction before with
    | nil => exact firstText?_cons_of_text hne
    | cons p before ih =>
      obtain ⟨hp, hrest⟩ := List.forall_mem_cons.mp hbefore
      rw [List.cons_append, firstText?_cons_of_ne hp, ih hrest]
  · intro h
    induction pairs with
    | nil => cases h
    | cons p pairs ih =>
      obtain ⟨k, value⟩ := p
      by_cases hp : k = key ∧ value.shown ≠ ""
      · obtain ⟨rfl, hne⟩ := hp
        rw [firstText?_cons_of_text hne, Option.some.injEq] at h
        exact ⟨[], value, ⟨⟨pairs, rfl⟩, ⟨rfl, hne⟩, List.forall_mem_nil _⟩, h⟩
      · rw [firstText?_cons_of_ne hp] at h
        obtain ⟨before, value', ⟨⟨after, rfl⟩, hhas, hbefore⟩, htext⟩ := ih h
        exact ⟨(k, value) :: before, value', ⟨⟨after, rfl⟩, hhas, List.forall_mem_cons.mpr ⟨hp, hbefore⟩⟩, htext⟩

theorem hasLast_iff :
    HasLast pairs key text ↔ (Fields.ofList (pairs.map fun p => (p.1, p.2.shown))).get? key = some text := by
  rw [Fields.get?_ofList, ← List.map_reverse, lookup_map_snd, Option.map_eq_some_iff]
  simp only [HasLast, List.lookup_eq_some_iff, bne_iff_ne]
  constructor
  · rintro ⟨before, value, after, rfl, hafter, htext⟩
    refine ⟨value, ⟨after.reverse, before.reverse, by simp, fun p hp heq => hafter ?_⟩, htext⟩
    rw [heq]
    exact List.mem_map_of_mem (List.mem_reverse.mp hp)
  · rintro ⟨value, ⟨later, earlier, hsplit, hlater⟩, htext⟩
    refine ⟨earlier.reverse, value, later.reverse, ?_, fun hmem => ?_, htext⟩
    · rw [← List.reverse_reverse pairs, hsplit]
      simp
    · obtain ⟨p, hp, heq⟩ := List.mem_map.mp hmem
      exact hlater p (List.mem_reverse.mp hp) heq.symm

end Keys

/-! ### The candidate that wins -/

section Candidates

variable {α : Type} {Has : String → α → Prop} {keys past past' : List String} {found found' : Option (String × α)}

/-- The first candidate that has something, with what it has, or none; `past` are the candidates that have come to
nothing. -/
inductive Wins (Has : String → α → Prop) (keys : List String) : List String → Option (String × α) → Prop where
  | first {past : List String} {key : String} {a : α} (hkey : FirstIn (fun key => ∃ a, Has key a) past key keys)
    (ha : Has key a) : Wins Has keys past (some (key, a))
  | none (h : ∀ key ∈ keys, ∀ a, ¬ Has key a) : Wins Has keys keys none

/-- Where a key has one thing at most, there is one outcome. -/
theorem Wins.unique (h : Wins Has keys past found) (h' : Wins Has keys past' found')
    (hHas : ∀ key a a', Has key a → Has key a' → a = a') : past = past' ∧ found = found' := by
  cases h with
  | first hkey ha =>
    cases h' with
    | first hkey' ha' =>
      obtain ⟨rfl, rfl⟩ := hkey.unique hkey'
      rw [hHas _ _ _ ha ha']
      exact ⟨rfl, rfl⟩
    | none hno => exact absurd ha (hno _ hkey.mem _)
  | none hno =>
    cases h' with
    | first hkey' ha' => exact absurd ha' (hno _ hkey'.mem _)
    | none => exact ⟨rfl, rfl⟩

end Candidates

/-! ### One role -/

section Roles

variable {pairs : List (String × RawValue)}

/-- The pairs of other keys than these. -/
def withoutKeys (keys : List String) (pairs : List (String × RawValue)) : List (String × RawValue) :=
  pairs.filter fun p => decide (p.1 ∉ keys)

theorem hasTime_unique {year : Int} {key : String} {t t' : Time.Timestamp} (h : HasTime year pairs key t)
    (h' : HasTime year pairs key t') : t = t' := by
  rw [hasTime_iff] at h h'
  exact Option.some.inj (h.symm.trans h')

theorem hasText_unique {key text text' : String} (h : HasText pairs key text) (h' : HasText pairs key text') :
    text = text' := by
  rw [hasText_iff] at h h'
  exact Option.some.inj (h.symm.trans h')

/-- **The time.** -/
theorem wins_time? (rules : RoleRules) (pairs : List (String × RawValue)) :
    ∃ past, Wins (HasTime rules.year pairs) rules.timeKeys past (rules.time? pairs) := by
  have hnone : ∀ key, ((pairs.lookup key).bind (·.time? rules.year)).map (key, ·) = none →
      ∀ t, ¬ HasTime rules.year pairs key t := by
    intro key hkey t ht
    rw [Option.map_eq_none_iff, hasTime_iff.mp ht] at hkey
    cases hkey
  cases htime : rules.time? pairs with
  | none => exact ⟨_, .none fun key hkey => hnone key (List.findSome?_eq_none_iff.mp htime key hkey)⟩
  | some found =>
    obtain ⟨past, key, after, hkeys, hkey, hpast⟩ := List.findSome?_eq_some_iff.mp htime
    obtain ⟨t, ht, rfl⟩ := Option.map_eq_some_iff.mp hkey
    have hhas := hasTime_iff.mpr ht
    exact ⟨past, .first ⟨⟨after, hkeys⟩, ⟨t, hhas⟩, fun k hk ⟨t', ht'⟩ => hnone k (hpast k hk) t' ht'⟩ hhas⟩

theorem afterTime_eq (rules : RoleRules) (pairs : List (String × RawValue)) :
    rules.afterTime pairs = withoutKeys ((rules.time? pairs).map (·.1)).toList pairs := by
  unfold RoleRules.afterTime
  cases rules.time? pairs with
  | none => simp [withoutKeys]
  | some found => exact withoutKey_eq_filter found.1 pairs

/-- **A role that is a text.** The pairs of the candidate that wins go, and those of the candidates before it. -/
theorem wins_takeText (keys : List String) (pairs : List (String × RawValue)) :
    ∃ past, Wins (HasText pairs) keys past (takeText keys pairs).1 ∧
      (takeText keys pairs).2 = withoutKeys (past ++ ((takeText keys pairs).1.map (·.1)).toList) pairs := by
  have hnone : ∀ key, firstText? key pairs = none → ∀ text, ¬ HasText pairs key text := by
    intro key hkey text htext
    rw [hasText_iff.mp htext] at hkey
    cases hkey
  rcases takeText_cases keys pairs with ⟨hkeys, htake⟩ | ⟨past, key, after, text, hkeys, hpast, hkey, htake⟩
  · rw [htake]
    refine ⟨keys, .none fun key hmem => hnone key (hkeys key hmem), ?_⟩
    rw [Option.map_none, Option.toList_none, List.append_nil, withoutKeys]
  · rw [htake]
    have hhas := hasText_iff.mpr hkey
    exact ⟨past, .first ⟨⟨after, hkeys⟩, ⟨text, hhas⟩, fun k hk ⟨text', ht'⟩ => hnone k (hpast k hk) text' ht'⟩ hhas,
      rfl⟩

end Roles

/-! ### The whole event -/

/-- What a record says. The time goes to the first candidate whose first pair is a time, and its pairs go. The message
goes to the first candidate that still has a text; its pairs go, and those of the candidates before it. So with the
level. What is left are the fields, each with the text of its last pair. -/
inductive Event.Classified (rules : RoleRules) (pairs : List (String × RawValue)) : Event → Prop where
  | intro {time : Option (String × Time.Timestamp)} {message level : Option (String × String)}
    {pastTime pastMessage pastLevel : List String} {afterTime afterMessage rest : List (String × RawValue)}
    {fields : Fields}
    (htime : Wins (HasTime rules.year pairs) rules.timeKeys pastTime time)
    (hafterTime : afterTime = withoutKeys (time.map (·.1)).toList pairs)
    (hmessage : Wins (HasText afterTime) rules.messageKeys pastMessage message)
    (hafterMessage : afterMessage = withoutKeys (pastMessage ++ (message.map (·.1)).toList) afterTime)
    (hlevel : Wins (HasText afterMessage) rules.levelKeys pastLevel level)
    (hrest : rest = withoutKeys (pastLevel ++ (level.map (·.1)).toList) afterMessage)
    (hfields : ∀ key text, fields.get? key = some text ↔ HasLast rest key text) :
    Classified rules pairs
      { timestamp := time.map (·.2)
        message := message.map (·.2)
        level := level.map (·.2)
        fields := fields
        roleKeys := ⟨time.map (·.1), message.map (·.1), level.map (·.1)⟩ }

theorem Event.classified_ofPairs (rules : RoleRules) (pairs : List (String × RawValue)) :
    Classified rules pairs (ofPairs rules pairs) := by
  obtain ⟨pastTime, htime⟩ := wins_time? rules pairs
  obtain ⟨pastMessage, hmessage, hafterMessage⟩ := wins_takeText rules.messageKeys (rules.afterTime pairs)
  obtain ⟨pastLevel, hlevel, hrest⟩ := wins_takeText rules.levelKeys (rules.message pairs).2
  rw [RoleRules.ofPairs_eq]
  exact .intro htime (afterTime_eq rules pairs) hmessage hafterMessage hlevel hrest fun _ _ => hasLast_iff.symm

/-- The roles one after the other can only come out in one way. -/
theorem Event.Classified.unique {rules : RoleRules} {pairs : List (String × RawValue)} {e e' : Event}
    (h : Classified rules pairs e) (h' : Classified rules pairs e') : e = e' := by
  cases h with
  | intro htime hafterTime hmessage hafterMessage hlevel hrest hfields =>
  cases h' with
  | intro htime' hafterTime' hmessage' hafterMessage' hlevel' hrest' hfields' =>
    obtain ⟨rfl, rfl⟩ := htime.unique htime' fun _ _ _ => hasTime_unique
    subst hafterTime hafterTime'
    obtain ⟨rfl, rfl⟩ := hmessage.unique hmessage' fun _ _ _ => hasText_unique
    subst hafterMessage hafterMessage'
    obtain ⟨rfl, rfl⟩ := hlevel.unique hlevel' fun _ _ _ => hasText_unique
    subst hrest hrest'
    rw [Fields.ext_get? fun key => Option.ext fun text => (hfields key text).trans (hfields' key text).symm]

/-- **Precedence.** The event of a record is what the record says, and nothing else is. -/
theorem Event.classified_iff (rules : RoleRules) (pairs : List (String × RawValue)) (e : Event) :
    Classified rules pairs e ↔ e = ofPairs rules pairs := by
  constructor
  · intro h
    exact h.unique (classified_ofPairs rules pairs)
  · rintro rfl
    exact classified_ofPairs rules pairs

end LegibleLog
