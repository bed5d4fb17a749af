import LegibleLog.Proofs.Json.Outermost
import LegibleLog.Proofs.Json.Written
import LegibleLog.Proofs.Members

/-!
# Containers in the fields of an event

A member of a record in JSON whose value is an array or an object is kept as the text of this value.

* `RawValue.ofJson_of_container` — what is kept of a container, which is a text of at least one character;
* `Event.get?_of_container` — if the key is a field, this text is its value;
* `Event.ofRecord_containers` — the text is compact and stands for the same value, unless it has a floating-point
  number.
-/

namespace LegibleLog

open Json (Compact)

variable {rules : RoleRules} {bytes : List UInt8} {e : Event}

theorem RawValue.ofJson_of_container {value : Json.Value} (h : value.container? ≠ none) :
    RawValue.ofJson value = .text value.text := by
  cases value with
  | scalar s => exact absurd rfl h
  | array items => rfl
  | object members => rfl

/-- A member of an object that is read can be written and read on its own. -/
theorem Json.canonical_of_mem {cs : List Char} {members : List (String × Json.Value)} {key : String}
    {value : Json.Value} (h : Json.Value.ofText? cs = some (.object members)) (hmem : (key, value) ∈ members) :
    ∃ d ≤ Json.Builder.maxDepth, value.Canonical d := by
  have hobject := Json.canonical_of_ofText? h
  generalize hmax : Json.Builder.maxDepth = max at hobject ⊢
  cases hobject with
  | @object d _ _ hvalues => exact ⟨d, Nat.le_succ d, hvalues (key, value) hmem⟩

/-- **Containers.** A record in JSON is the text of an object. If a member of this object is an array or an object
itself, without floating-point numbers, and its key is a field of the event, then the field is compact and stands for
the value of the member. -/
theorem Event.ofRecord_containers (h : Event.ofRecord .json rules bytes = .ok e) :
    ∃ text members, Text.decode? bytes = some text ∧ Json.Value.ofText? text.toList = some (.object members) ∧
      ∀ key value stored, (key, value) ∈ members → value.container? ≠ none → value.RealFree →
        e.fields.get? key = some stored →
        Compact stored.toList ∧ Json.Value.ofText? stored.toList = some value := by
  obtain ⟨text, members, htext, hv, hmembers⟩ := Event.member_ofRecord h
  refine ⟨text, members, htext, hv, fun key value stored hmem hcontainer hreal hstored => ?_⟩
  obtain ⟨d, hd, hcanonical⟩ := Json.canonical_of_mem hv hmem
  have hread : Json.Value.ofText? value.text.toList = some value := hcanonical.ofText?_text hd hreal
  have hshown : (RawValue.ofJson value).shown = value.text := by
    rw [RawValue.ofJson_of_container hcontainer]
    rfl
  have hne : (RawValue.ofJson value).shown ≠ "" := by
    rw [hshown]
    intro hempty
    rw [hempty, String.toList_empty, Json.Value.ofText?, Json.tokens?_eq_nil rfl] at hread
    cases hread
  obtain ⟨-, hfield⟩ | ⟨-, hnone⟩ := hmembers key value hmem hne
  · obtain rfl : (RawValue.ofJson value).shown = stored := Option.some.inj (hfield.symm.trans hstored)
    rw [hshown]
    exact ⟨hcanonical.compact_text hd hreal, hread⟩
  · rw [hnone] at hstored
    cases hstored

/-- A record with an object of the extreme integers, an empty array and a string with a quote and a line feed. -/
theorem Event.ofRecord_containers_of_one :
    ∃ line stored e members value,
      line =
        "\x7b\"by\":\x7b\"ids\":[-9223372036854775808,18446744073709551615],\"of\":[],\"says\":\"\\\"\\n\"\x7d\x7d" ∧
      stored = "\x7b\"ids\":[-9223372036854775808,18446744073709551615],\"of\":[],\"says\":\"\\\"\\n\"\x7d" ∧
      Event.ofRecord .json {} (Text.encode line) = .ok e ∧ Json.Value.ofText? line.toList = some (.object members) ∧
      ("by", value) ∈ members ∧ value.container? ≠ none ∧ value.RealFree ∧ e.fields.get? "by" = some stored ∧
      Compact stored.toList ∧ Json.Value.ofText? stored.toList = some value := by
  set line :=
    "\x7b\"by\":\x7b\"ids\":[-9223372036854775808,18446744073709551615],\"of\":[],\"says\":\"\\\"\\n\"\x7d\x7d"
  set stored := "\x7b\"ids\":[-9223372036854775808,18446744073709551615],\"of\":[],\"says\":\"\\\"\\n\"\x7d"
  let ids : Json.Value := .array [.scalar (.integer (-9223372036854775808)), .scalar (.integer 18446744073709551615)]
  let user : Json.Value := .object [("ids", ids), ("of", .array []), ("says", .scalar (.string "\"\n"))]
  have hids : ids.Canonical 1 :=
    .array (List.forall_mem_cons.mpr ⟨.scalar (by decide), List.forall_mem_singleton.mpr (.scalar (by decide))⟩)
  have huser : user.Canonical 2 :=
    .object (by unfold KeysAscend; decide) (List.forall_mem_cons.mpr ⟨hids, List.forall_mem_cons.mpr
      ⟨.array (List.forall_mem_nil _), List.forall_mem_singleton.mpr (.scalar trivial)⟩⟩)
  have hidsReal : ids.RealFree :=
    .array (List.forall_mem_cons.mpr ⟨.scalar (by nofun), List.forall_mem_singleton.mpr (.scalar (by nofun))⟩)
  have hreal : user.RealFree :=
    .object (List.forall_mem_cons.mpr ⟨hidsReal, List.forall_mem_cons.mpr
      ⟨.array (List.forall_mem_nil _), List.forall_mem_singleton.mpr (.scalar (by nofun))⟩⟩)
  have hmembers : Json.Value.ofText? line.toList = some (.object [("by", user)]) := by
    have hline : (Json.Value.object [("by", user)]).text = line := by decide +kernel
    have hcanonical : (Json.Value.object [("by", user)]).Canonical 3 :=
      .object (List.pairwise_singleton _ _) (List.forall_mem_singleton.mpr huser)
    rw [← hline]
    exact hcanonical.ofText?_text (by decide) (.object (List.forall_mem_singleton.mpr hreal))
  have hrecord : Event.ofRecord .json {} (Text.encode line) =
      .ok ⟨none, none, none, Fields.ofList [("by", stored)], ⟨none, none, none⟩⟩ := by
    decide +kernel
  obtain ⟨text, members, htext, hv, hall⟩ := ofRecord_containers hrecord
  obtain rfl : line = text := Option.some.inj ((Text.decode?_encode line).symm.trans htext)
  have hfield : (Fields.ofList [("by", stored)]).get? "by" = some stored := by
    rw [Fields.get?_ofList]
    rfl
  obtain rfl : [("by", user)] = members := by simpa using hmembers.symm.trans hv
  exact ⟨_, _, _, _, _, rfl, rfl, hrecord, hv, List.mem_singleton_self _, by nofun, hreal, hfield,
    hall "by" user stored (List.mem_singleton_self _) (by nofun) hreal hfield⟩

/-- Members come in the order of their keys, and the last one of a key counts. -/
example :
    (Event.ofRecord .json {} (Text.encode "\x7b\"k\": \x7b\"b\": 1, \"a\": 2, \"a\": [ 3 ]\x7d\x7d")).toOption.bind
      (·.fields.get? "k") = some "\x7b\"a\":[3],\"b\":1\x7d" := by
  decide +kernel

end LegibleLog
