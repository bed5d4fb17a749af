import LegibleLog.Proofs.ControlSequences
import LegibleLog.Proofs.Shapes
import LegibleLog.Proofs.Wrappers

/-!
# A line has one shape at most

* `CriLine.exists_body_of_console` — a line of a container runtime that is also a console line has a payload that ends
  in a tab and the body;
* `Shape.bare_ne_ok`, `Shape.contained_inj`, `Shape.contained_ne_ok_of_console` — each kind of two shapes;
* `Shape.eq_of_event` — a line without escape bytes is of one shape at most;
* `recognizeIn?` — the first shape that a line has in any order; `one_shape_in_any_order` says that no order makes a
  difference.
-/

namespace LegibleLog

variable {rules : RoleRules} {line : List UInt8}

/-! ### Container runtimes and consoles -/

namespace CriLine

variable {cri : CriLine} {zap : ZapLine}

theorem byte_of_stream (stream : ContainerStream) : ∀ b ∈ Text.encode stream.name, Text.isAsciiBlank b = false := by
  cases stream <;> decide +kernel

theorem splitWord_time {time : List Char} {t : Time.Timestamp} (htime : Time.rfc3339? time = some t)
    (hspace : ' ' ∉ time) (stream : ContainerStream) (tagged : List UInt8) :
    ZapLine.splitWord (Text.encodeChars time ++ ' '.toUInt8 :: (Text.encode stream.name ++ ' '.toUInt8 :: tagged)) =
      (Text.encodeChars time, [' '.toUInt8], Text.encode stream.name ++ ' '.toUInt8 :: tagged) := by
  have hblanks : ∀ b ∈ [' '.toUInt8], Text.isAsciiBlank b = true := List.forall_mem_singleton.mpr (by decide)
  have hhead : ∀ b ∈ (Text.encode stream.name ++ ' '.toUInt8 :: tagged).head?, Text.isAsciiBlank b = false := by
    cases stream with
    | stdout => rintro b ⟨⟩; decide
    | stderr => rintro b ⟨⟩; decide
  exact ZapLine.splitWord_append (byte_of_time htime hspace) (List.cons_ne_nil _ _) hblanks hhead

theorem splitWord_stream (stream : ContainerStream) (tagged : List UInt8) :
    ZapLine.splitWord (Text.encode stream.name ++ ' '.toUInt8 :: tagged) =
      (Text.encode stream.name, ' '.toUInt8 :: tagged.takeWhile Text.isAsciiBlank,
        tagged.dropWhile Text.isAsciiBlank) := by
  have hblanks : ∀ b ∈ ' '.toUInt8 :: tagged.takeWhile Text.isAsciiBlank, Text.isAsciiBlank b = true :=
    List.forall_mem_cons.mpr ⟨by decide, fun _ => List.mem_takeWhile_imp⟩
  have hhead : ∀ b ∈ (tagged.dropWhile Text.isAsciiBlank).head?, Text.isAsciiBlank b = false := by
    intro b hb
    have hnot := List.head?_dropWhile_not Text.isAsciiBlank tagged
    rw [Option.mem_def] at hb
    rw [hb] at hnot
    exact hnot
  have hsplit := ZapLine.splitWord_append (byte_of_stream stream) (List.cons_ne_nil _ _) hblanks hhead
  rwa [List.cons_append, List.takeWhile_append_dropWhile] at hsplit

/-- A tag would be the third word of a console line, but no place is a single letter. -/
theorem withoutTag_of_caller {tagged caller : List UInt8} (hcaller : ZapLine.isCaller caller = true)
    (hword : (ZapLine.splitWord (tagged.dropWhile Text.isAsciiBlank)).1 = caller) : withoutTag tagged = tagged := by
  unfold withoutTag
  split
  · next t s r =>
    split
    · next htag =>
      rw [Bool.and_eq_true, Bool.or_eq_true, beq_iff_eq, beq_iff_eq, beq_iff_eq] at htag
      obtain ⟨ht, rfl⟩ := htag
      have hletter : Text.isAsciiBlank t = false := by
        rcases ht with rfl | rfl <;> decide
      have hsplit : (ZapLine.splitWord (t :: ' '.toUInt8 :: r)).1 = [t] := by
        simp [ZapLine.splitWord, hletter]
        decide
      rw [List.dropWhile_cons_of_neg (by simp [hletter]), hsplit] at hword
      rw [← hword, ZapLine.isCaller_singleton] at hcaller
      cases hcaller
    · rfl
  · rfl

/-- **The payload of a line that is also a console line** ends in a tab and the body of the console line, and it is not
blank before the tab. -/
theorem exists_body_of_console (hcri : ofBytes? line = some cri) (hzap : ZapLine.ofBytes? line = some zap) :
    ∃ front, cri.payload = front ++ '\t'.toUInt8 :: zap.body ∧ ∃ b ∈ front, Text.isAsciiBlank b = false := by
  obtain ⟨time, tagged, rfl, htime, hspace, hpayload⟩ := ofBytes?_cases hcri
  obtain ⟨-, caller, front, hcaller, hword, hrest⟩ := ZapLine.ofBytes?_cases hzap
  rw [splitWord_time htime hspace, splitWord_stream] at hword hrest
  rw [withoutTag_of_caller hcaller hword] at hpayload
  refine ⟨tagged.takeWhile Text.isAsciiBlank ++ (caller ++ front), ?_, ?_⟩
  · have hsplit : tagged.takeWhile Text.isAsciiBlank ++ (caller ++ (front ++ '\t'.toUInt8 :: zap.body)) = tagged := by
      rw [← hrest, List.takeWhile_append_dropWhile]
    rw [hpayload]
    simpa using hsplit.symm
  · cases caller with
    | nil => cases hcaller
    | cons b caller =>
      refine ⟨b, by simp, ?_⟩
      have hmem : b ∈ (ZapLine.splitWord (tagged.dropWhile Text.isAsciiBlank)).1 := hword ▸ List.mem_cons_self
      simpa using List.mem_takeWhile_imp hmem

end CriLine

/-! ### Shapes -/

theorem Format.eq_of_read {f f' : Format} {bytes : List UInt8} {pairs pairs' : List (String × RawValue)}
    (h : f.read bytes = .ok pairs) (h' : f'.read bytes = .ok pairs') : f = f' := by
  cases f <;> cases f'
  · rfl
  · exact absurd h' (not_json_and_logfmt h)
  · exact absurd h (not_json_and_logfmt h')
  · rfl

namespace Shape

variable {rules' : RoleRules} {e e' : Event} {f f' : Format}

/-- What stands before the record in a wrapper of either kind. -/
theorem contained_payload (hescape : Csi.escape ∉ line) (h : (contained f).event rules line = .ok e) :
    (∃ cri pairs, CriLine.ofBytes? line = some cri ∧ f.read cri.payload = .ok pairs) ∨
      ∃ compose pairs, CriLine.ofBytes? line = none ∧ ComposeLine.ofPlain? line = some compose ∧
        f.read compose.payload = .ok pairs := by
  rcases contained_cases h with ⟨cri, inner, hcri, hinner, -⟩ | ⟨compose, inner, hcri, hcompose, hinner, -⟩
  · obtain ⟨pairs, hpairs, -⟩ := Event.ofRecord_eq_ok_iff.mp hinner
    exact .inl ⟨cri, pairs, hcri, hpairs⟩
  · obtain ⟨pairs, hpairs, -⟩ := Event.ofRecord_eq_ok_iff.mp hinner
    rw [ComposeLine.ofBytes?, Csi.strip_eq_self_iff.mpr (Csi.free_of_notMem hescape)] at hcompose
    exact .inr ⟨compose, pairs, hcri, hcompose, hpairs⟩

/-- **A wrapped line begins as no record does.** -/
theorem bare_ne_ok (hescape : Csi.escape ∉ line) {s : Shape} (hs : ∀ f, s ≠ bare f) (h : s.event rules line = .ok e)
    (f : Format) : (bare f).event rules' line ≠ .ok e' := by
  have hprefixed : Prefixed line := by
    cases s with
    | bare f => exact absurd rfl (hs f)
    | contained f =>
      rcases contained_payload hescape h with ⟨cri, -, hcri, -⟩ | ⟨compose, -, -, hcompose, -⟩
      · exact CriLine.prefixed hcri
      · exact ComposeLine.prefixed hcompose
    | console =>
      obtain ⟨zap, -, hzap, -⟩ := console_cases h
      exact ZapLine.prefixed hzap
  intro h'
  obtain ⟨pairs, hpairs, -⟩ := Event.ofRecord_eq_ok_iff.mp h'
  exact hprefixed.not_record f hpairs

/-- **A record in a wrapper has one form.** -/
theorem contained_inj (hescape : Csi.escape ∉ line) (h : (contained f).event rules line = .ok e)
    (h' : (contained f').event rules' line = .ok e') : f = f' := by
  rcases contained_payload hescape h with ⟨cri, pairs, hcri, hread⟩ | ⟨compose, pairs, hcri, hcompose, hread⟩
  · rcases contained_payload hescape h' with ⟨cri', pairs', hcri', hread'⟩ | ⟨_, _, hcri', -, -⟩
    · obtain rfl := Option.some.inj (hcri.symm.trans hcri')
      exact Format.eq_of_read hread hread'
    · rw [hcri] at hcri'
      cases hcri'
  · rcases contained_payload hescape h' with ⟨cri', _, hcri', -⟩ | ⟨compose', pairs', -, hcompose', hread'⟩
    · rw [hcri] at hcri'
      cases hcri'
    · obtain rfl := Option.some.inj (hcompose.symm.trans hcompose')
      exact Format.eq_of_read hread hread'

/-- **No console line is a record in a wrapper.** Behind the prefix of a container runtime, the body is at the end of
the record; the name of a service has no colon, and every timestamp has one. -/
theorem contained_ne_ok_of_console (hescape : Csi.escape ∉ line) (h : console.event rules line = .ok e) :
    (contained f).event rules' line ≠ .ok e' := by
  intro h'
  obtain ⟨zap, inner, hzap, hinner, -⟩ := console_cases h
  rcases contained_payload hescape h' with ⟨cri, pairs, hcri, hread⟩ | ⟨compose, pairs, -, hcompose, -⟩
  · obtain ⟨pairs', hbody, -⟩ := Event.ofRecord_eq_ok_iff.mp hinner
    obtain ⟨front, hpayload, hfront⟩ := CriLine.exists_body_of_console hcri hzap
    rw [hpayload] at hread
    exact not_record_and_body hfront hread hbody
  · obtain ⟨name, blanks, rfl, -, hname, hne, hblanks, -, -⟩ := ComposeLine.ofPlain?_eq_some_iff.mp hcompose
    obtain ⟨-, hcolon, -⟩ := ZapLine.isStamp_cases (ZapLine.ofBytes?_cases hzap).1
    have hvisible : ∀ b ∈ name, Text.isAsciiBlank b = false :=
      fun b hb => Text.isAsciiBlank_of_visible b (ComposeLine.isNameByte_cases b (hname b hb)).1
    have hbar : ∀ b ∈ ('|'.toUInt8 :: ' '.toUInt8 :: compose.payload).head?, Text.isAsciiBlank b = false := by
      rintro b ⟨⟩
      decide
    rw [ZapLine.splitWord_append hvisible hne hblanks hbar] at hcolon
    exact (ComposeLine.isNameByte_cases _ (hname _ hcolon)).2.2.2 rfl

/-- **A line without escape bytes is of one shape at most.** -/
theorem eq_of_event (hescape : Csi.escape ∉ line) {s s' : Shape} (h : s.event rules line = .ok e)
    (h' : s'.event rules' line = .ok e') : s = s' := by
  cases s with
  | bare f =>
    cases s' with
    | bare f' =>
      obtain ⟨pairs, hpairs, -⟩ := Event.ofRecord_eq_ok_iff.mp h
      obtain ⟨pairs', hpairs', -⟩ := Event.ofRecord_eq_ok_iff.mp h'
      rw [Format.eq_of_read hpairs hpairs']
    | contained f' => exact absurd h (bare_ne_ok hescape (by nofun) h' f)
    | console => exact absurd h (bare_ne_ok hescape (by nofun) h' f)
  | contained f =>
    cases s' with
    | bare f' => exact absurd h' (bare_ne_ok hescape (by nofun) h f')
    | contained f' => rw [contained_inj hescape h h']
    | console => exact absurd h (contained_ne_ok_of_console hescape h')
  | console =>
    cases s' with
    | bare f' => exact absurd h' (bare_ne_ok hescape (by nofun) h f')
    | contained f' => exact absurd h' (contained_ne_ok_of_console hescape h)
    | console => rfl

end Shape

/-! ### Orders -/

/-- The first shape in an order that a line has, with the event. -/
def recognizeIn? (order : List Shape) (rules : RoleRules) (line : List UInt8) : Option (Shape × Event) :=
  order.findSome? fun s =>
    match s.event rules line with
    | .ok e => some (s, e)
    | .error _ => none

theorem recognize?_eq (rules : RoleRules) (line : List UInt8) :
    recognize? rules line = recognizeIn? Shape.all rules line := rfl

/-- For a line of at most one shape, the order does not come in. -/
theorem recognizeIn?_eq_some_iff_of_unique {order : List Shape} {s : Shape} {e : Event}
    (hone : ∀ s s' e e', Shape.event s rules line = .ok e → Shape.event s' rules line = .ok e' → s = s') :
    recognizeIn? order rules line = some (s, e) ↔ s ∈ order ∧ s.event rules line = .ok e := by
  have hfound : ∀ {p : Shape × Event}, recognizeIn? order rules line = some p →
      p.1 ∈ order ∧ p.1.event rules line = .ok p.2 := by
    intro p hp
    obtain ⟨s, hs, hp⟩ := List.exists_of_findSome?_eq_some hp
    split at hp
    · next e he =>
      cases hp
      exact ⟨hs, he⟩
    · cases hp
  refine ⟨hfound, fun ⟨hs, he⟩ => ?_⟩
  cases hfirst : recognizeIn? order rules line with
  | none =>
    have hnone := List.findSome?_eq_none_iff.mp hfirst s hs
    rw [he] at hnone
    cases hnone
  | some p =>
    obtain ⟨-, hp⟩ := hfound hfirst
    obtain rfl := hone _ _ _ _ he hp
    rw [Except.ok.inj (he.symm.trans hp)]

theorem recognizeIn?_eq_some_iff (hescape : Csi.escape ∉ line) {order : List Shape} {s : Shape} {e : Event} :
    recognizeIn? order rules line = some (s, e) ↔ s ∈ order ∧ s.event rules line = .ok e :=
  recognizeIn?_eq_some_iff_of_unique fun _ _ _ _ h h' => Shape.eq_of_event hescape h h'

/-- **One shape, whatever the order.** At most one shape takes a line without escape bytes, so that the shapes may be
tried in any order: the event, and the name and the form of the shape, stay the same. -/
theorem one_shape_in_any_order (hescape : Csi.escape ∉ line) (rules : RoleRules) :
    (∀ s s' e e', Shape.event s rules line = .ok e → Shape.event s' rules line = .ok e' → s = s') ∧
      ∀ order : List Shape, order.Perm Shape.all → recognizeIn? order rules line = recognize? rules line := by
  refine ⟨fun s s' e e' h h' => Shape.eq_of_event hescape h h', fun order horder => Option.ext fun p => ?_⟩
  rw [recognize?_eq, recognizeIn?_eq_some_iff hescape, recognizeIn?_eq_some_iff hescape, horder.mem_iff]

/-- The line of a container runtime whose record could begin a console line: the shapes are tried backwards. -/
theorem one_shape_in_any_order_runtime :
    let line := Text.encode "2021-02-05T12:41:48Z stdout \x7b\"a.go:1\":1\x7d"
    Csi.escape ∉ line ∧ recognizeIn? Shape.all.reverse {} line = recognize? {} line ∧
      (recognize? {} line).map (·.1) = some (.contained .json) := by
  intro line
  have hescape : Csi.escape ∉ line := by decide +kernel
  exact ⟨hescape, (one_shape_in_any_order hescape {}).2 _ (List.reverse_perm _), by decide +kernel⟩

end LegibleLog
