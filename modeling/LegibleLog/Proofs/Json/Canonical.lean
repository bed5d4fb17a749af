import LegibleLog.Proofs.Fields
import LegibleLog.Proofs.Json.Balance

/-!
# The values that texts stand for

A value that is read from a text is in canonical form: its integers fit into 64 bits, the members of its objects stand
in the order of their keys, each key once, and it is nested no deeper than the builder allows.

* `Scalar.Exact`, `exact_of_tokens?` — the scalars that are read;
* `Value.Canonical d v` — the form, for a value of at most `d` containers inside each other;
* `Builder.Sound d b` — a builder that makes such values, and whose frames leave room for `d` containers;
* `Builder.sound_step?`, `Builder.sound_run?` — one word and a row of words keep it;
* `canonical_of_ofText?`, `keysAscend_of_ofText?` — what follows for a whole text.
-/

namespace LegibleLog.Json

/-! ### Scalars -/

/-- An integer is one of 64 bits, with a sign or without. -/
def Scalar.Exact : Scalar → Prop
  | .integer n => -0x8000_0000_0000_0000 ≤ n ∧ n < 0x1_0000_0000_0000_0000
  | _ => True

instance : DecidablePred Scalar.Exact
  | .integer n => inferInstanceAs (Decidable (-0x8000_0000_0000_0000 ≤ n ∧ n < 0x1_0000_0000_0000_0000))
  | .null => .isTrue trivial
  | .bool _ => .isTrue trivial
  | .real _ _ => .isTrue trivial
  | .string _ => .isTrue trivial

theorem gather_lt {n : Nat} (hn : n < UInt64.size) (ds : List Char) : (gather n ds).1 < UInt64.size := by
  induction ds generalizing n with
  | nil => exact hn
  | cons d ds ih =>
    rw [gather]
    split
    · next hnext => exact ih hnext
    · exact hn

theorem NumberParts.exact_of_toReal? {p : NumberParts} {s : Scalar} (h : p.toReal? = some s) : s.Exact := by
  obtain ⟨_, -, rfl⟩ := Option.map_eq_some_iff.mp h
  exact trivial

theorem NumberParts.exact_of_toScalar? {p : NumberParts} {s : Scalar} (h : p.toScalar? = some s) : s.Exact := by
  unfold toScalar? at h
  split at h
  · have hlt : (gather 0 p.whole).1 < UInt64.size := gather_lt (by decide) p.whole
    split at h
    · next n hn =>
      rw [hn] at hlt
      have hsize : n < 0x1_0000_0000_0000_0000 := hlt
      split at h
      · cases h
        exact ⟨by omega, by omega⟩
      · split at h
        · cases h
          exact ⟨by omega, by omega⟩
        · cases h
          exact trivial
    · exact exact_of_toReal? h
  · exact exact_of_toReal? h

theorem exact_of_readNumber? {cs rest : List Char} {s : Scalar} (h : readNumber? cs = some (s, rest)) : s.Exact := by
  unfold readNumber? at h
  split at h
  · obtain ⟨_, hs, hpair⟩ := Option.map_eq_some_iff.mp h
    cases hpair
    exact NumberParts.exact_of_toScalar? hs
  · cases h

theorem exact_of_read? {cs rest : List Char} {s : Scalar} (h : Token.read? cs = some (.scalar s, rest)) : s.Exact := by
  obtain ⟨w, hw, -⟩ | ⟨_, s', -, -, heq⟩ | ⟨s', hs, heq⟩ := Token.read?_cases h
  · have hwords : ∀ p ∈ fixedWords, ∀ s, p.2 = .scalar s → s.Exact := by simp [fixedWords, Scalar.Exact]
    exact hwords _ hw s rfl
  · cases heq
    exact trivial
  · cases heq
    exact exact_of_readNumber? hs

/-- The scalars of a text. -/
theorem exact_of_tokens? {cs : List Char} {ts : List Token} (h : tokens? cs = some ts) :
    ∀ s, .scalar s ∈ ts → s.Exact := by
  induction ts generalizing cs with
  | nil => nofun
  | cons t ts ih =>
    rcases tokens?_cases h with ⟨-, hnil⟩ | ⟨_, _, _, _, _, -, -, -, hread, hmore, hts⟩
    · cases hnil
    · cases hts
      intro s hs
      rcases List.mem_cons.mp hs with rfl | hs
      · exact exact_of_read? hread
      · exact ih hmore s hs

/-! ### Values -/

/-- A value as it is read, of at most so many containers inside each other. -/
inductive Value.Canonical : Nat → Value → Prop where
  | scalar {d : Nat} {s : Scalar} (h : s.Exact) : Canonical d (.scalar s)
  | array {d : Nat} {items : List Value} (h : ∀ v ∈ items, Canonical d v) :
    Canonical (d + 1) (.array items)
  | object {d : Nat} {members : List (String × Value)} (ascend : KeysAscend members)
    (h : ∀ m ∈ members, Canonical d m.2) : Canonical (d + 1) (.object members)

theorem Value.Canonical.object_byKey {d : Nat} {members : List (String × Value)} (h : ∀ m ∈ members, m.2.Canonical d) :
    (Value.object (byKey members)).Canonical (d + 1) :=
  .object (keysAscend_byKey members) fun m hm => h m (mem_of_mem_byKey hm)

/-! ### Builders -/

/-- A container whose items or members may be `d` deep, and those before the awaited one are. -/
def Frame.Sound (d : Nat) : Frame → Prop
  | .item before => ∀ v ∈ before, v.Canonical d
  | .member before _ => ∀ m ∈ before, m.2.Canonical d

/-- Open containers that leave room for `d` more inside of them. -/
inductive FramesSound : Nat → List Frame → Prop where
  | nil : FramesSound Builder.maxDepth []
  | cons {d : Nat} {frame : Frame} {frames : List Frame} (inner : frame.Sound d) (outer : FramesSound (d + 1) frames) :
    FramesSound d (frame :: frames)

/-- What has been read inside of frames that leave room for `d` containers, the one that is being read among them. -/
inductive Mode.Sound : Nat → Mode → Prop where
  | value {d : Nat} : Sound d .value
  | arrayStart {d : Nat} : Sound (d + 1) .arrayStart
  | objectStart {d : Nat} : Sound (d + 1) .objectStart
  | nextKey {d : Nat} {before : List (String × Value)} (h : ∀ m ∈ before, m.2.Canonical d) :
    Sound (d + 1) (.nextKey before)
  | key {d : Nat} {before : List (String × Value)} {key : String} (h : ∀ m ∈ before, m.2.Canonical d) :
    Sound (d + 1) (.key before key)
  | itemEnd {d : Nat} {items : List Value} (h : ∀ v ∈ items, v.Canonical d) : Sound (d + 1) (.itemEnd items)
  | memberEnd {d : Nat} {members : List (String × Value)} (h : ∀ m ∈ members, m.2.Canonical d) :
    Sound (d + 1) (.memberEnd members)
  | finished {d : Nat} {v : Value} (h : v.Canonical Builder.maxDepth) : Sound d (.finished v)

theorem FramesSound.add_length {d : Nat} {frames : List Frame} (h : FramesSound d frames) :
    d + frames.length = Builder.maxDepth := by
  induction h with
  | nil => rfl
  | cons _ _ ih =>
    rw [List.length_cons, ← ih]
    omega

namespace Builder

/-- All values are in canonical form, and the frames leave room for `d` containers. -/
structure Sound (d : Nat) (b : Builder) : Prop where
  mode : b.mode.Sound d
  frames : FramesSound d b.frames

variable {d : Nat} {b b' : Builder} {frames : List Frame} {t : Token} {ts : List Token}

theorem sound_start : start.Sound maxDepth := ⟨.value, .nil⟩

theorem exists_sound_deliver {v : Value} (hv : v.Canonical d) (h : FramesSound d frames) :
    ∃ d', (deliver v frames).Sound d' := by
  cases h with
  | nil => exact ⟨_, .finished hv, .nil⟩
  | @cons _ frame _ hinner houter =>
    cases frame with
    | item before => exact ⟨_, .itemEnd (List.forall_mem_cons.mpr ⟨hv, hinner⟩), houter⟩
    | member before key => exact ⟨_, .memberEnd (List.forall_mem_cons.mpr ⟨hv, hinner⟩), houter⟩

theorem exists_sound_begin? (ht : ∀ s, t = .scalar s → s.Exact) (h : FramesSound d frames)
    (hb : begin? frames t = some b) : ∃ d', b.Sound d' := by
  -- a container is opened only where the builder has room for it
  have hopen : ∀ mode, (∀ inner, mode.Sound (inner + 1)) → openIn mode frames = some b → ∃ d', b.Sound d' := by
    intro mode hmode hb
    unfold openIn at hb
    split at hb
    · next hlt =>
      cases hb
      have hsum := h.add_length
      obtain ⟨inner, rfl⟩ : ∃ inner, d = inner + 1 := ⟨d - 1, by omega⟩
      exact ⟨inner + 1, hmode inner, h⟩
    · cases hb
  unfold begin? at hb
  split at hb
  · next s =>
    cases hb
    exact exists_sound_deliver (.scalar (ht s rfl)) h
  · exact hopen .arrayStart (fun _ => .arrayStart) hb
  · exact hopen .objectStart (fun _ => .objectStart) hb
  · cases hb

/-- **One word** keeps the values in canonical form. -/
theorem sound_step? (ht : ∀ s, t = .scalar s → s.Exact) (h : b.Sound d) (hb : b.step? t = some b') :
    ∃ d', b'.Sound d' := by
  obtain ⟨hmode, hframes⟩ := h
  cases step?_eq_some_iff.mp hb with
  | begins hbegin => exact exists_sound_begin? ht hframes hbegin
  | firstItem hbegin =>
    cases hmode with
    | @arrayStart inner =>
      have hempty : (Frame.item []).Sound inner := List.forall_mem_nil _
      exact exists_sound_begin? ht (.cons hempty hframes) hbegin
  | noItems =>
    cases hmode
    exact exists_sound_deliver (.array (List.forall_mem_nil _)) hframes
  | noMembers =>
    cases hmode
    exact exists_sound_deliver (.object .nil (List.forall_mem_nil _)) hframes
  | firstKey =>
    cases hmode
    exact ⟨_, .key (List.forall_mem_nil _), hframes⟩
  | nextKey =>
    cases hmode with
    | nextKey hbefore => exact ⟨_, .key hbefore, hframes⟩
  | colon =>
    cases hmode with
    | key hbefore => exact ⟨_, .value, .cons hbefore hframes⟩
  | moreItems =>
    cases hmode with
    | itemEnd hitems => exact ⟨_, .value, .cons hitems hframes⟩
  | endItems =>
    cases hmode with
    | itemEnd hitems =>
      exact exists_sound_deliver (.array fun v hv => hitems v (List.mem_reverse.mp hv)) hframes
  | moreMembers =>
    cases hmode with
    | memberEnd hmembers => exact ⟨_, .nextKey hmembers, hframes⟩
  | endMembers =>
    cases hmode with
    | memberEnd hmembers =>
      exact exists_sound_deliver (.object_byKey fun m hm => hmembers m (List.mem_reverse.mp hm)) hframes

/-- **A row of words** keeps the values in canonical form. -/
theorem sound_run? (hts : ∀ s, .scalar s ∈ ts → s.Exact) (h : b.Sound d) (hb : b.run? ts = some b') :
    ∃ d', b'.Sound d' := by
  induction ts generalizing b d with
  | nil =>
    cases hb
    exact ⟨d, h⟩
  | cons t ts ih =>
    obtain ⟨next, hnext, hrest⟩ := run?_cons_eq_some_iff.mp hb
    obtain ⟨d', hd'⟩ := sound_step? (fun s hs => hts s (hs ▸ List.mem_cons_self)) h hnext
    exact ih (fun s hs => hts s (List.mem_cons_of_mem t hs)) hd' hrest

end Builder

/-! ### Texts -/

/-- **A value that is read from a text** is in canonical form. -/
theorem canonical_of_ofText? {cs : List Char} {v : Value} (h : Value.ofText? cs = some v) :
    v.Canonical Builder.maxDepth := by
  obtain ⟨ts, hts, hvalue⟩ := Option.bind_eq_some_iff.mp h
  obtain ⟨frames, hrun⟩ := Value.ofTokens?_eq_some_iff.mp hvalue
  obtain ⟨_, hmode, -⟩ := Builder.sound_run? (exact_of_tokens? hts) Builder.sound_start hrun
  cases hmode with
  | finished hv => exact hv

theorem keysAscend_of_ofText? {cs : List Char} {members : List (String × Value)}
    (h : Value.ofText? cs = some (.object members)) : KeysAscend members := by
  cases canonical_of_ofText? h with
  | object ascend _ => exact ascend

end LegibleLog.Json
