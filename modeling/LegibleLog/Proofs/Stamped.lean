import LegibleLog.Proofs.OneShape
import LegibleLog.Proofs.RuntimeLines

/-!
# Records behind the stamp of a container runtime

* `RuntimeStamp` — what a container runtime writes before a payload: a time, a stream and a tag;
* `RuntimeStamp.criLine_bytes`, `RuntimeStamp.zapLine_bytes` — the line is taken apart into just these and the payload,
  and it is no console line;
* `RuntimeStamp.event_bytes` — the event of the line is the one of the payload, with the time for an absent one;
* `RuntimeStamp.transparent_in_chain` — so the payload is all that counts when the shapes are tried one after the other.
-/

namespace LegibleLog

/-- A time in the form of RFC 3339, with a capital `T` and without a space, a stream and a tag. -/
structure RuntimeStamp where
  time : String
  timestamp : Time.Timestamp
  stream : ContainerStream
  tag : LineTag
  rfc3339?_time : Time.rfc3339? time.toList = some timestamp
  space_notMem : ' ' ∉ time.toList
  capital : (Text.encode time)[10]? = some 'T'.toUInt8

/-! ### The parts of a line -/

namespace RuntimeStamp

/-- The line with a payload. -/
def bytes (stamp : RuntimeStamp) (payload : List UInt8) : List UInt8 :=
  Text.encode stamp.time ++ ' '.toUInt8 ::
    (Text.encode stamp.stream.name ++ ' '.toUInt8 :: stamp.tag.letter :: ' '.toUInt8 :: payload)

/-- The event of a payload, where the time of the stamp stands in for an absent one. -/
def date (stamp : RuntimeStamp) (e : Event) : Event := { e with timestamp := e.timestamp <|> some stamp.timestamp }

variable (stamp : RuntimeStamp) {payload : List UInt8} {f : Format} {rules : RoleRules}

/-- **The stamp and the payload** are what the line is taken apart into. -/
theorem criLine_bytes (payload : List UInt8) :
    CriLine.ofBytes? (stamp.bytes payload) = some ⟨stamp.timestamp, stamp.stream, payload⟩ := by
  have hspace : ' '.toUInt8 ∉ Text.encode stamp.time := by
    rw [Text.encode_eq, Text.toUInt8_mem_encodeChars_iff (by decide)]
    exact stamp.space_notMem
  exact CriLine.ofBytes?_iff_hasForm.mpr
    ⟨stamp.time, _, rfl, hspace, stamp.rfc3339?_time, stamp.capital, .inl ⟨stamp.tag, rfl⟩⟩

/-- The tag stands where a console line has the place in a program, and no tag is one. -/
theorem zapLine_bytes (payload : List UInt8) : ZapLine.ofBytes? (stamp.bytes payload) = none := by
  refine Option.eq_none_iff_forall_ne_some.mpr fun zap hzap => ?_
  obtain ⟨-, caller, front, hcaller, hword, -⟩ := ZapLine.ofBytes?_cases hzap
  rw [bytes, Text.encode_eq stamp.time, CriLine.splitWord_time stamp.rfc3339?_time stamp.space_notMem,
    CriLine.splitWord_stream] at hword
  have htag := CriLine.withoutTag_of_caller hcaller hword
  rw [CriLine.withoutTag_letter] at htag
  have hlen := congrArg List.length htag
  simp only [List.length_cons] at hlen
  omega

/-! ### The event -/

theorem event_bytes (payload : List UInt8) :
    (Shape.contained f).event rules (stamp.bytes payload) = ((Shape.bare f).event rules payload).map stamp.date := by
  simp only [Shape.event, Shape.containedEvent, criLine_bytes]
  rfl

theorem bare_bytes_ne_ok (f : Format) (e : Event) : (Shape.bare f).event rules (stamp.bytes payload) ≠ .ok e := by
  intro h
  obtain ⟨pairs, hpairs, -⟩ := Event.ofRecord_eq_ok_iff.mp h
  exact (CriLine.prefixed (stamp.criLine_bytes payload)).not_record f hpairs

theorem console_bytes_ne_ok (e : Event) : Shape.console.event rules (stamp.bytes payload) ≠ .ok e := by
  intro h
  obtain ⟨zap, -, hzap, -⟩ := Shape.console_cases h
  rw [stamp.zapLine_bytes] at hzap
  cases hzap

/-- The line has an event in the wrapper of its payload only. -/
theorem event_bytes_eq_ok_iff {s : Shape} {e : Event} : s.event rules (stamp.bytes payload) = .ok e ↔
    ∃ f inner, s = .contained f ∧ (Shape.bare f).event rules payload = .ok inner ∧ stamp.date inner = e := by
  constructor
  · intro h
    cases s with
    | bare f => exact absurd h (stamp.bare_bytes_ne_ok f e)
    | contained f =>
      rw [stamp.event_bytes, map_eq_ok_iff] at h
      obtain ⟨inner, hinner, he⟩ := h
      exact ⟨f, inner, rfl, hinner, he⟩
    | console => exact absurd h (stamp.console_bytes_ne_ok e)
  · rintro ⟨f, inner, rfl, hinner, rfl⟩
    rw [stamp.event_bytes, hinner]
    rfl

theorem eq_of_event_bytes {s s' : Shape} {e e' : Event} (h : s.event rules (stamp.bytes payload) = .ok e)
    (h' : s'.event rules (stamp.bytes payload) = .ok e') : s = s' := by
  obtain ⟨f, inner, rfl, hinner, -⟩ := stamp.event_bytes_eq_ok_iff.mp h
  obtain ⟨f', inner', rfl, hinner', -⟩ := stamp.event_bytes_eq_ok_iff.mp h'
  obtain ⟨pairs, hpairs, -⟩ := Event.ofRecord_eq_ok_iff.mp hinner
  obtain ⟨pairs', hpairs', -⟩ := Event.ofRecord_eq_ok_iff.mp hinner'
  rw [Format.eq_of_read hpairs hpairs']

theorem date_of_dated {e : Event} (h : e.timestamp ≠ none) : stamp.date e = e := by
  obtain ⟨t, ht⟩ := Option.ne_none_iff_exists'.mp h
  have hkept : (e.timestamp <|> some stamp.timestamp) = e.timestamp := by
    rw [ht]
    rfl
  rw [date, hkept]

/-- A record without a time has no key for it. -/
theorem roleKeys_time_of_timestamp {e : Event} (h : (Shape.bare f).event rules payload = .ok e)
    (htime : e.timestamp = none) : e.roleKeys.time = none := by
  obtain ⟨pairs, -, rfl⟩ := Event.ofRecord_eq_ok_iff.mp h
  have hnone : rules.time? pairs = none := Option.map_eq_none_iff.mp htime
  exact Option.map_eq_none_iff.mpr hnone

/-- **Transparency in the chain.** No record alone and no console line begins with a stamp. Behind it, a record in a
wrapper has the event that it has alone, where the time of the stamp stands in for an absent one, for which no key is
kept. So this is what is recognized, and nothing else. -/
theorem transparent_in_chain (payload : List UInt8) (rules : RoleRules) :
    (∀ f e, (Shape.bare f).event rules (stamp.bytes payload) ≠ .ok e) ∧
      (∀ e, Shape.console.event rules (stamp.bytes payload) ≠ .ok e) ∧
      (∀ f, (Shape.contained f).event rules (stamp.bytes payload) =
        ((Shape.bare f).event rules payload).map stamp.date) ∧
      (∀ f inner, (Shape.bare f).event rules payload = .ok inner →
        (inner.timestamp ≠ none → stamp.date inner = inner) ∧
          (inner.timestamp = none →
            stamp.date inner = { inner with timestamp := some stamp.timestamp } ∧
              (stamp.date inner).roleKeys.time = none)) ∧
      ∀ s e, recognize? rules (stamp.bytes payload) = some (s, e) ↔
        ∃ f inner, s = .contained f ∧ (Shape.bare f).event rules payload = .ok inner ∧ stamp.date inner = e := by
  refine ⟨stamp.bare_bytes_ne_ok, stamp.console_bytes_ne_ok, fun f => stamp.event_bytes payload, ?_, ?_⟩
  · intro f inner hinner
    constructor
    · exact stamp.date_of_dated
    · intro htime
      have hkey : inner.roleKeys.time = none := roleKeys_time_of_timestamp hinner htime
      refine ⟨?_, hkey⟩
      rw [date, htime]
      rfl
  · intro s e
    rw [recognize?_eq, recognizeIn?_eq_some_iff_of_unique fun _ _ _ _ => stamp.eq_of_event_bytes,
      stamp.event_bytes_eq_ok_iff]
    exact and_iff_right (Shape.mem_all s)

/-- The stamp of a line on the standard output. -/
def onOutput : RuntimeStamp where
  time := "2026-01-30T03:29:06.5Z"
  timestamp := ⟨1769743746, 500000000, 0⟩
  stream := .stdout
  tag := .full
  rfc3339?_time := by decide +kernel
  space_notMem := by decide +kernel
  capital := by decide +kernel

/-- A record without a time of its own, which gets the one of the stamp. -/
theorem transparent_in_chain_output :
    onOutput.bytes (Text.encode "k=v") = Text.encode "2026-01-30T03:29:06.5Z stdout F k=v" ∧
      recognize? {} (onOutput.bytes (Text.encode "k=v")) =
        some (.contained .logfmt,
          ⟨some onOutput.timestamp, none, none, Fields.ofList [("k", "v")], ⟨none, none, none⟩⟩) := by
  have hinner : (Shape.bare .logfmt).event {} (Text.encode "k=v") =
      .ok ⟨none, none, none, Fields.ofList [("k", "v")], ⟨none, none, none⟩⟩ := by decide +kernel
  obtain ⟨-, -, -, -, hchain⟩ := onOutput.transparent_in_chain (Text.encode "k=v") {}
  exact ⟨by decide +kernel, (hchain _ _).mpr ⟨.logfmt, _, rfl, hinner, rfl⟩⟩

end RuntimeStamp

end LegibleLog
