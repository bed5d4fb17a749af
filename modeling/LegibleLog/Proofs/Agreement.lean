import LegibleLog.Proofs.Json.Spellings
import LegibleLog.Proofs.Records

/-!
# The two forms of records agree

The same fields, written as a JSON object of strings and as a row of logfmt tokens.

* `readJson_of_denotes`, `readLogfmt_of_row` — the pairs that either form gives;
* `Event.ofRecord_json_eq_logfmt` — the same event in both forms, however the fields are written and in whatever order.
-/

namespace LegibleLog

/-- Fields as pairs of a record. -/
def Fields.pairs (fields : Fields) : List (String × RawValue) := fields.entries.map fun p => (p.1, .text p.2)

/-! ### JSON -/

theorem readJson_of_denotes {cs : List Char} {fields : Fields} (h : Json.Denotes cs fields) :
    readJson (Text.encode (String.ofList cs)) = .ok fields.pairs := by
  have hhead : ((Text.encode (String.ofList cs)).dropWhile Text.isFeedBlank).head? = some '\x7b'.toUInt8 := by
    obtain ⟨blanks, rest, rfl, hblanks⟩ := h.exists_blanks
    have hsplit : Text.encodeChars (blanks ++ '\x7b' :: rest) =
        Text.encodeChars blanks ++ '\x7b'.toUInt8 :: Text.encodeChars rest := by
      rw [Text.encodeChars, List.flatMap_append, List.flatMap_cons, Text.utf8EncodeChar_of_ascii (by decide)]
      rfl
    have hfeed : ∀ b ∈ Text.encodeChars blanks, Text.isFeedBlank b = true :=
      fun b => Json.isFeedBlank_of_mem_encodeChars hblanks
    rw [Text.encode_eq, String.toList_ofList, hsplit, List.dropWhile_append_of_pos hfeed,
      List.dropWhile_cons_of_neg (by decide), List.head?_cons]
  have hvalue : (Text.decode? (Text.encode (String.ofList cs))).bind (fun s => Json.Value.ofText? s.toList) =
      some (.object (fields.entries.map Json.textMember)) := by
    rw [Text.decode?_encode, Option.bind_some, String.toList_ofList, Json.ofText?_of_denotes h]
  rw [readJson, if_pos hhead, hvalue]
  simp only [List.map_map]
  rfl

/-! ### Logfmt -/

theorem readLogfmt_of_row {row : Logfmt.Row} (h : row.Legal Logfmt.hexNumber?) (hne : row.tokens ≠ []) :
    readLogfmt (Text.encode (String.ofList row.text)) =
      .ok ((row.pairs Logfmt.hexNumber?).map fun p => (p.1, .text p.2)) := by
  have hequals : '=' ∈ row.text := by
    obtain ⟨p, hp⟩ := List.exists_mem_of_ne_nil _ hne
    refine List.mem_append_left _ (List.mem_flatMap.mpr ⟨p, hp, List.mem_append_right _ ?_⟩)
    exact List.mem_append_right _ List.mem_cons_self
  have hbyte : (Text.encode (String.ofList row.text)).contains '='.toUInt8 = true := by
    rw [List.contains_iff_mem, Text.encode_eq, String.toList_ofList]
    exact (Text.toUInt8_mem_encodeChars_iff (by decide)).mpr hequals
  have hdecode := Logfmt.decode_eq_ok_iff.mpr ⟨row, h, rfl, rfl⟩
  simp only [readLogfmt, if_pos hbyte, Text.decode?_encode, String.toList_ofList, hdecode]

/-! ### Either form -/

/-- **The two forms agree.** Fields of which there is at least one, and whose keys may be keys in logfmt, are written in
JSON in some way and in logfmt in some way; and however they are written in either form, the record is the same
event. -/
theorem Event.ofRecord_json_eq_logfmt (fields : Fields) (hne : fields.entries ≠ [])
    (hkeys : ∀ p ∈ fields.entries, Logfmt.IsKey p.1) :
    (∃ cs, Json.Denotes cs fields) ∧
    (∃ row : Logfmt.Row, row.Legal Logfmt.hexNumber? ∧ (row.pairs Logfmt.hexNumber?).Perm fields.entries) ∧
    ∀ (rules : RoleRules) (cs : List Char) (row : Logfmt.Row), Json.Denotes cs fields → row.Legal Logfmt.hexNumber? →
      (row.pairs Logfmt.hexNumber?).Perm fields.entries →
      ∃ e, Event.ofRecord .json rules (Text.encode (String.ofList cs)) = .ok e ∧
        Event.ofRecord .logfmt rules (Text.encode (String.ofList row.text)) = .ok e := by
  refine ⟨Json.exists_denotes fields, ?_, fun rules cs row hcs hrow hperm => ?_⟩
  · obtain ⟨row, hrow⟩ := Logfmt.Row.exists_spells fields.entries
    refine ⟨row, (Logfmt.Row.legal_fourDigits_iff.mp (hrow.legal hkeys)).1, ?_⟩
    rw [hrow.pairs_eq]
  · have htokens : row.tokens ≠ [] := by
      intro hnil
      have hpairs : row.pairs Logfmt.hexNumber? = [] := by rw [Logfmt.Row.pairs, hnil, List.map_nil]
      rw [hpairs] at hperm
      exact hne hperm.symm.eq_nil
    have hnodup : (fields.pairs.map (·.1)).Nodup := by
      rw [Fields.pairs, List.map_map]
      exact fields.ascend.nodup_keys
    have hpairs : fields.pairs.Perm ((row.pairs Logfmt.hexNumber?).map fun p => (p.1, .text p.2)) :=
      hperm.symm.map _
    have hevents := Event.ofPairs_eq_of_perm rules hpairs hnodup
    refine ⟨Event.ofPairs rules fields.pairs, ?_, ?_⟩
    · rw [Event.ofRecord, Format.read, readJson_of_denotes hcs]
      rfl
    · rw [Event.ofRecord, Format.read, readLogfmt_of_row hrow htokens]
      exact congrArg Except.ok hevents.symm

/-- Two members in the one order and two tokens in the other, with an escape in one form and blanks in both. -/
theorem Event.ofRecord_json_eq_logfmt_of_two :
    let fields := Fields.ofList [("lvl", "info"), ("msg", "a b")]
    let row : Logfmt.Row := ⟨[([], ⟨"lvl".toList, .bare "info".toList⟩), ([' ', ' '], ⟨"msg".toList, .quoted
      [.plain 'a', .plain ' ', .plain 'b']⟩)], []⟩
    let e : Event := ⟨none, some "a b", some "info", Fields.empty, ⟨none, some "msg", some "lvl"⟩⟩
    String.ofList row.text = "lvl=info  msg=\"a b\"" ∧ (row.pairs Logfmt.hexNumber?).Perm fields.entries ∧
      Event.ofRecord .logfmt {} (Text.encode (String.ofList row.text)) = .ok e ∧
      Event.ofRecord .json {} (Text.encode " \x7b\"msg\":\"a\\u0020b\", \"lvl\":\"info\"\x7d") = .ok e := by
  intro fields row e
  have hentries : fields.entries = [("lvl", "info"), ("msg", "a b")] := by decide +kernel
  have hrow : row.Legal Logfmt.hexNumber? := by
    refine ⟨?_, ?_, List.forall_mem_nil _⟩
    · simp only [row, List.forall_mem_cons]
      refine ⟨⟨List.forall_mem_nil _, ?_⟩, ⟨by simp; decide, ?_⟩, List.forall_mem_nil _⟩
      · exact ⟨by decide, List.all_eq_true.mp (by decide), (List.all_eq_true.mp (by decide) : ∀ c ∈ "info".toList, _)⟩
      · exact ⟨by decide, List.all_eq_true.mp (by decide), by simp [Logfmt.Written.Legal, Logfmt.Spelling.Legal]⟩
    · simp [row]
  have hpairs : (row.pairs Logfmt.hexNumber?).Perm fields.entries := by
    rw [hentries]
    decide +kernel
  have hplain : ∀ cs : List Char, cs.all (fun c => 0x20 ≤ c.toNat && c != '"' && c != '\\') = true →
      List.Forall₂ Json.Spells cs (cs.map ([·])) := by
    intro cs hcs
    simp only [List.all_eq_true, Bool.and_eq_true, decide_eq_true_eq, bne_iff_ne] at hcs
    rw [List.forall₂_map_right_iff, List.forall₂_same]
    exact fun c hc => .plain (hcs c hc).1.1 (hcs c hc).1.2 (hcs c hc).2
  have hvalue : List.Forall₂ Json.Spells "a b".toList [['a'], "\\u0020".toList, ['b']] :=
    .cons (.plain (by decide) (by decide) (by decide)) (.cons (.number (by decide +kernel))
      (.cons (.plain (by decide) (by decide) (by decide)) .nil))
  have hkey : List.Forall₂ Json.Spells "msg".toList _ := hplain "msg".toList (by decide)
  have hlevel : List.Forall₂ Json.Spells "lvl".toList _ := hplain "lvl".toList (by decide)
  have hinfo : List.Forall₂ Json.Spells "info".toList _ := hplain "info".toList (by decide)
  have hblank : ∀ c ∈ [' '], Json.isBlank c = true := List.forall_mem_singleton.mpr rfl
  have hnone : ∀ c ∈ ([] : List Char), Json.isBlank c = true := List.forall_mem_nil _
  have hwords := Json.Words.cons hblank .openBrace (.cons hnone (.string hkey) (.cons hnone .colon
    (.cons hnone (.string hvalue) (.cons hnone .comma (.cons hblank (.string hlevel) (.cons hnone .colon
      (.cons hnone (.string hinfo) (.cons hnone .closeBrace (.nil hnone)))))))))
  have hdenotes : Json.Denotes _ fields := ⟨[("msg", "a b"), ("lvl", "info")], by decide +kernel, hwords⟩
  have hlogfmt : Event.ofRecord .logfmt {} (Text.encode (String.ofList row.text)) = .ok e := by decide +kernel
  obtain ⟨-, -, hagree⟩ := Event.ofRecord_json_eq_logfmt fields (by rw [hentries]; exact List.cons_ne_nil _ _)
    (by rw [hentries]; decide +kernel)
  obtain ⟨e', hjson, hlogfmt'⟩ := hagree {} _ row hdenotes hrow hpairs
  rw [hlogfmt] at hlogfmt'
  cases hlogfmt'
  exact ⟨by decide +kernel, hpairs, hlogfmt, hjson⟩

end LegibleLog
