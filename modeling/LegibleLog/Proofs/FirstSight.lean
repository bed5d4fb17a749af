import LegibleLog.Proofs.Json.Outermost
import LegibleLog.Proofs.Records

/-!
# What is refused at first sight

A record in JSON is looked at for its opening brace before it is read, and one in logfmt for an equals sign.

* `braceFirst_iff` — among the texts of JSON values, the look finds those of objects, though it passes over more blanks
  than JSON has;
* `readJson_eq_ok_iff`, `readLogfmt_eq_ok_iff` — so all that is refused at first sight is no record;
* `Event.ofRecord_iff_decoded` — the events of a record are told by its decoder alone.
-/

namespace LegibleLog

variable {bytes : List UInt8} {pairs : List (String × RawValue)}

/-! ### JSON -/

/-- The blanks that JSON does not have are not visible either. -/
theorem Json.isBlank_of_isFeedBlank {b : UInt8} (h : Text.isFeedBlank b = true) (hvisible : 0x20 ≤ (Char.ofUInt8 b).toNat) :
    Json.isBlank (Char.ofUInt8 b) = true := by
  rw [Text.toNat_ofUInt8] at hvisible
  have hascii : Text.isAsciiBlank b = true := (Bool.and_eq_true_iff.mp h).1
  rcases Bool.or_eq_true_iff.mp hascii with hcontrol | hspace
  · have hle : b.toNat ≤ 0x0D := UInt8.le_iff_toNat_le.mp (of_decide_eq_true (Bool.and_eq_true_iff.mp hcontrol).2)
    omega
  · rw [eq_of_beq hspace]
    decide

theorem Text.toNat_ofUInt8_of_isFeedBlank {b : UInt8} (h : Text.isFeedBlank b = true) : (Char.ofUInt8 b).toNat < 0x80 :=
  (Text.isBlank_ofUInt8 b (Bool.and_eq_true_iff.mp h).1).1

/-- Bytes that are blanks are those of characters that are. -/
theorem forall_isFeedBlank_of_encodeChars {cs : List Char} (h : ∀ b ∈ Text.encodeChars cs, Text.isFeedBlank b = true) :
    ∀ c ∈ cs, ∃ b, Text.isFeedBlank b = true ∧ Char.ofUInt8 b = c := by
  intro c hc
  obtain ⟨b, more, hbytes⟩ := List.exists_cons_of_ne_nil (String.utf8EncodeChar_ne_nil (c := c))
  have hb : b ∈ String.utf8EncodeChar c := by
    rw [hbytes]
    exact List.mem_cons_self
  have hblank := h b (List.mem_flatMap.mpr ⟨c, hc, hb⟩)
  refine ⟨b, hblank, ?_⟩
  rw [← Text.toUInt8_ofUInt8 b, Text.toUInt8_mem_utf8EncodeChar_iff (Text.toNat_ofUInt8_of_isFeedBlank hblank)] at hb
  exact hb.symm

/-- **The look for a brace.** It finds the texts of objects among those of all values. -/
theorem braceFirst_iff {cs : List Char} {v : Json.Value} (h : Json.Value.ofText? cs = some v) :
    ((Text.encodeChars cs).dropWhile Text.isFeedBlank).head? = some '\x7b'.toUInt8 ↔ ∃ members, v = .object members := by
  rw [Json.Value.exists_object_iff h]
  constructor
  · intro hbrace
    obtain ⟨more, hmore⟩ : ∃ more, (Text.encodeChars cs).dropWhile Text.isFeedBlank = '\x7b'.toUInt8 :: more := by
      cases hdrop : (Text.encodeChars cs).dropWhile Text.isFeedBlank with
      | nil =>
        rw [hdrop] at hbrace
        cases hbrace
      | cons b more =>
        rw [hdrop, List.head?_cons] at hbrace
        exact ⟨more, by rw [Option.some.inj hbrace]⟩
    have hsplit := List.takeWhile_append_dropWhile (p := Text.isFeedBlank) (l := Text.encodeChars cs)
    rw [hmore] at hsplit
    obtain ⟨l, r, rfl, hl, -⟩ := Text.exists_split (by decide) hsplit.symm
    obtain ⟨ts, hts, -⟩ := Option.bind_eq_some_iff.mp h
    -- a blank that JSON does not have would be refused by the reader
    have hblanks : ∀ c ∈ l, Json.isBlank c = true := by
      intro c hc
      have hfeed : ∀ b ∈ Text.encodeChars l, Text.isFeedBlank b = true := by
        rw [hl]
        exact fun b hb => List.mem_takeWhile_imp hb
      obtain ⟨b, hb, rfl⟩ := forall_isFeedBlank_of_encodeChars hfeed c hc
      rcases Json.isBlank_or_visible_of_tokens? hts _ (List.mem_append_left _ hc) with hblank | hvisible
      · exact hblank
      · exact Json.isBlank_of_isFeedBlank hb hvisible
    refine ⟨r, ?_⟩
    rw [List.dropWhile_append_of_pos hblanks]
    exact List.dropWhile_cons_of_neg (by decide)
  · rintro ⟨r, hr⟩
    have hsplit := List.takeWhile_append_dropWhile (p := Json.isBlank) (l := cs)
    rw [hr] at hsplit
    have hblanks : ∀ b ∈ Text.encodeChars (cs.takeWhile Json.isBlank), Text.isFeedBlank b = true :=
      fun b hb => Json.isFeedBlank_of_mem_encodeChars (fun c hc => List.mem_takeWhile_imp hc) hb
    have hbytes : Text.encodeChars cs =
        Text.encodeChars (cs.takeWhile Json.isBlank) ++ '\x7b'.toUInt8 :: Text.encodeChars r := by
      conv_lhs => rw [← hsplit]
      rw [Text.encodeChars_append, Text.encodeChars_cons (by decide)]
    rw [hbytes, List.dropWhile_append_of_pos hblanks, List.dropWhile_cons_of_neg (by decide), List.head?_cons]

/-- **A record in JSON** is the text of an object. -/
theorem readJson_eq_ok_iff : readJson bytes = .ok pairs ↔
    ∃ text members, Text.decode? bytes = some text ∧ Json.Value.ofText? text.toList = some (.object members) ∧
      (members.map fun m => (m.1, RawValue.ofJson m.2)) = pairs := by
  constructor
  · intro h
    obtain ⟨text, members, htext, hv, rfl⟩ := readJson_eq_ok h
    exact ⟨text, members, htext, hv, rfl⟩
  · rintro ⟨text, members, htext, hv, rfl⟩
    have hbrace : (bytes.dropWhile Text.isFeedBlank).head? = some '\x7b'.toUInt8 := by
      rw [← Text.decode?_eq_some_iff.mp htext]
      exact (braceFirst_iff hv).mpr ⟨members, rfl⟩
    have hvalue : ((Text.decode? bytes).bind fun s => Json.Value.ofText? s.toList) = some (.object members) := by
      rw [htext, Option.bind_some, hv]
    unfold readJson
    rw [if_pos hbrace, hvalue]

/-- Behind the look for a brace, a value that is no object does not occur. -/
theorem readJson_ne_notObject (bytes : List UInt8) : readJson bytes ≠ .error .notObject := by
  intro h
  unfold readJson at h
  split at h
  · next hbrace =>
    split at h
    · cases h
    · next v hnot hv =>
      obtain ⟨text, htext, hvalue⟩ := Option.bind_eq_some_iff.mp hv
      have hbytes := Text.decode?_eq_some_iff.mp htext
      rw [← hbytes] at hbrace
      obtain ⟨members, rfl⟩ := (braceFirst_iff hvalue).mp hbrace
      exact hnot members rfl
    · cases h
  · cases h

/-! ### Logfmt -/

/-- A row has an equals sign exactly when it has a token. -/
theorem Logfmt.Row.Legal.equals_mem_iff {row : Logfmt.Row} (h : row.Legal Logfmt.hexNumber?) :
    '=' ∈ row.text ↔ row.pairs Logfmt.hexNumber? ≠ [] := by
  obtain ⟨tokens, after⟩ := row
  cases tokens with
  | nil =>
    refine iff_of_false (fun hmem => ?_) fun hne => hne rfl
    exact absurd (h.after '=' hmem) (by decide)
  | cons p tokens =>
    refine iff_of_true ?_ (List.cons_ne_nil _ _)
    rw [Logfmt.Row.text_cons, Logfmt.Token.text]
    simp

/-- **A record in logfmt** is a text that is decoded to some pairs. -/
theorem readLogfmt_eq_ok_iff : readLogfmt bytes = .ok pairs ↔
    ∃ text decoded, Text.decode? bytes = some text ∧ Logfmt.decode text.toList = .ok decoded ∧ decoded ≠ [] ∧
      (decoded.map fun p => (p.1, RawValue.text p.2)) = pairs := by
  have hequals : ∀ {text : String} {decoded : List (String × String)}, Text.decode? bytes = some text →
      Logfmt.decode text.toList = .ok decoded → (bytes.contains '='.toUInt8 = true ↔ decoded ≠ []) := by
    intro text decoded htext hdecoded
    obtain ⟨row, hrow, hcs, rfl⟩ := Logfmt.decode_eq_ok_iff.mp hdecoded
    rw [← hrow.equals_mem_iff, hcs, List.contains_iff_mem, ← Text.decode?_eq_some_iff.mp htext,
      Text.toUInt8_mem_encodeChars_iff (by decide)]
  constructor
  · intro h
    unfold readLogfmt at h
    split at h
    · next hmem =>
      split at h
      · cases h
      · next text htext =>
        split at h
        · next decoded hdecoded =>
          cases h
          exact ⟨text, decoded, htext, hdecoded, (hequals htext hdecoded).mp hmem, rfl⟩
        · cases h
    · cases h
  · rintro ⟨text, decoded, htext, hdecoded, hne, rfl⟩
    unfold readLogfmt
    rw [if_pos ((hequals htext hdecoded).mpr hne), htext]
    simp only [hdecoded]

/-! ### Events -/

/-- **The decoders decide.** Bytes have an event as a record in JSON exactly when all of them are the text of an object,
and never are they refused for being another value; they have one as a record in logfmt exactly when they are a text that
is decoded to at least one pair. The event is that of the members or pairs. -/
theorem Event.ofRecord_iff_decoded (rules : RoleRules) (bytes : List UInt8) :
    (∀ e, Event.ofRecord .json rules bytes = .ok e ↔
      ∃ text members, Text.decode? bytes = some text ∧ Json.Value.ofText? text.toList = some (.object members) ∧
        Event.ofPairs rules (members.map fun m => (m.1, RawValue.ofJson m.2)) = e) ∧
    Event.ofRecord .json rules bytes ≠ .error .notObject ∧
    ∀ e, Event.ofRecord .logfmt rules bytes = .ok e ↔
      ∃ text pairs, Text.decode? bytes = some text ∧ Logfmt.decode text.toList = .ok pairs ∧ pairs ≠ [] ∧
        Event.ofPairs rules (pairs.map fun p => (p.1, RawValue.text p.2)) = e := by
  refine ⟨?_, ?_, ?_⟩
  · intro e
    rw [Event.ofRecord_eq_ok_iff]
    constructor
    · rintro ⟨pairs, hpairs, rfl⟩
      obtain ⟨text, members, htext, hv, rfl⟩ := readJson_eq_ok_iff.mp hpairs
      exact ⟨text, members, htext, hv, rfl⟩
    · rintro ⟨text, members, htext, hv, rfl⟩
      exact ⟨_, readJson_eq_ok_iff.mpr ⟨text, members, htext, hv, rfl⟩, rfl⟩
  · intro h
    have hread := readJson_ne_notObject bytes
    cases hjson : readJson bytes with
    | ok pairs =>
      rw [Event.ofRecord, Format.read, hjson] at h
      cases h
    | error refusal =>
      rw [Event.ofRecord, Format.read, hjson] at h
      cases h
      exact hread hjson
  · intro e
    rw [Event.ofRecord_eq_ok_iff]
    constructor
    · rintro ⟨pairs, hpairs, rfl⟩
      obtain ⟨text, decoded, htext, hdecoded, hne, rfl⟩ := readLogfmt_eq_ok_iff.mp hpairs
      exact ⟨text, decoded, htext, hdecoded, hne, rfl⟩
    · rintro ⟨text, decoded, htext, hdecoded, hne, rfl⟩
      exact ⟨_, readLogfmt_eq_ok_iff.mpr ⟨text, decoded, htext, hdecoded, hne, rfl⟩, rfl⟩

end LegibleLog
