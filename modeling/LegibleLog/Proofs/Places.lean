import LegibleLog.Proofs.Cuts
import LegibleLog.Wrapper.Cri

/-!
# The places of a line

What the reader of lines of container runtimes finds by places, told without them.

* `byteAt_of_lt`, `bytesBefore_of_le`, `bytesFrom_of_le` — a place that a line has;
* `CriLine.LooksStamped bytes` — the first bytes are as in a timestamp; `CriLine.exists_looksStamped` says that the look
  finds just this;
* `CriLine.splitAtSpace_eq`, `CriLine.afterTag_eq` — the other steps of the reader;
* `CriLine.read_eq` — no step meets a place that the line does not have, and the parts are `CriLine.parts?`.
-/

namespace LegibleLog

variable {bytes l r : List UInt8} {place : Nat}

/-! ### One place -/

theorem byteAt_of_lt (h : place < bytes.length) : byteAt bytes place = .ok bytes[place] := by
  rw [byteAt, List.getElem?_eq_getElem h]

theorem bytesBefore_of_le (h : place ≤ bytes.length) : bytesBefore bytes place = .ok (bytes.take place) := if_pos h

theorem bytesFrom_of_le (h : place ≤ bytes.length) : bytesFrom bytes place = .ok (bytes.drop place) := if_pos h

namespace CriLine

/-! ### The look at the first bytes -/

/-- Signs stand in their places. -/
def HasSigns (bytes : List UInt8) (signs : List (Nat × Char)) : Prop := ∀ p ∈ signs, bytes[p.1]? = some p.2.toUInt8

/-- A line is long enough for a timestamp, a digit comes first, and the signs stand in their places. -/
structure LooksStamped (bytes : List UInt8) : Prop where
  length_le : leastLength ≤ bytes.length
  digit : ∃ b, bytes[0]? = some b ∧ (Char.ofUInt8 b).isDigit = true
  signs : HasSigns bytes signs

theorem exists_hasSigns {signs : List (Nat × Char)} (h : ∀ p ∈ signs, p.1 < bytes.length) :
    ∃ found, hasSigns bytes signs = .ok found ∧ (found = true ↔ HasSigns bytes signs) := by
  induction signs with
  | nil => exact ⟨true, rfl, iff_of_true rfl (List.forall_mem_nil _)⟩
  | cons p signs ih =>
    obtain ⟨place, sign⟩ := p
    obtain ⟨hplace, hmore⟩ := List.forall_mem_cons.mp h
    have hcons : HasSigns bytes ((place, sign) :: signs) ↔ bytes[place] = sign.toUInt8 ∧ HasSigns bytes signs := by
      rw [HasSigns, List.forall_mem_cons, List.getElem?_eq_getElem hplace, Option.some.injEq, HasSigns]
    rw [hasSigns, byteAt_of_lt hplace, hcons]
    by_cases hsign : bytes[place] = sign.toUInt8
    · obtain ⟨found, hfound, hiff⟩ := ih hmore
      refine ⟨found, ?_, hiff.trans (and_iff_right hsign).symm⟩
      rw [hsign]
      show (if (sign.toUInt8 == sign.toUInt8) = true then _ else _) = _
      rw [if_pos (beq_self_eq_true _), hfound]
    · refine ⟨false, ?_, iff_of_false Bool.false_ne_true fun hboth => hsign hboth.1⟩
      show (if (bytes[place] == sign.toUInt8) = true then _ else _) = _
      rw [if_neg (by rwa [beq_iff_eq])]
      rfl

/-- **The look meets no place that the line does not have**, since all places that it may meet are before the least
length. -/
theorem exists_looksStamped (bytes : List UInt8) :
    ∃ found, looksStamped bytes = .ok found ∧ (found = true ↔ LooksStamped bytes) := by
  unfold looksStamped
  by_cases hlength : bytes.length < leastLength
  · refine ⟨false, if_pos hlength, iff_of_false Bool.false_ne_true fun h => ?_⟩
    exact absurd h.length_le (Nat.not_le.mpr hlength)
  · have hle : leastLength ≤ bytes.length := Nat.le_of_not_lt hlength
    have hplaces : ∀ p ∈ signs, p.1 < bytes.length := by
      have hbefore : ∀ p ∈ signs, p.1 < leastLength := by decide
      exact fun p hp => Nat.lt_of_lt_of_le (hbefore p hp) hle
    have hfirst : 0 < bytes.length := Nat.lt_of_lt_of_le (by decide) hle
    obtain ⟨found, hfound, hiff⟩ := exists_hasSigns hplaces
    rw [if_neg hlength, byteAt_of_lt hfirst]
    by_cases hdigit : (Char.ofUInt8 bytes[0]).isDigit = true
    · refine ⟨found, ?_, ?_⟩
      · show (if (Char.ofUInt8 bytes[0]).isDigit = true then _ else _) = _
        rw [if_pos hdigit, hfound]
      · rw [hiff]
        constructor
        · intro hsigns
          exact ⟨hle, ⟨bytes[0], List.getElem?_eq_getElem hfirst, hdigit⟩, hsigns⟩
        · intro h
          exact h.signs
    · refine ⟨false, ?_, iff_of_false Bool.false_ne_true fun h => ?_⟩
      · show (if (Char.ofUInt8 bytes[0]).isDigit = true then _ else _) = _
        rw [if_neg hdigit]
        rfl
      · obtain ⟨b, hb, hisDigit⟩ := h.digit
        rw [List.getElem?_eq_getElem hfirst] at hb
        rw [Option.some.inj hb] at hdigit
        exact hdigit hisDigit

/-! ### The other steps -/

/-- The bytes before and after the first space. -/
def splitAtSpace? (bytes : List UInt8) : Option (List UInt8 × List UInt8) :=
  match bytes.dropWhile (· != ' '.toUInt8) with
  | _ :: r => some (bytes.takeWhile (· != ' '.toUInt8), r)
  | [] => none

theorem splitAtSpace?_append (h : ' '.toUInt8 ∉ l) (r : List UInt8) :
    splitAtSpace? (l ++ ' '.toUInt8 :: r) = some (l, r) := by
  have hl : ∀ b ∈ l, (b != ' '.toUInt8) = true := by
    intro b hb
    rw [bne_iff_ne]
    rintro rfl
    exact h hb
  have hr : ∀ b ∈ (' '.toUInt8 :: r).head?, (b != ' '.toUInt8) = false := by
    rintro b ⟨⟩
    exact bne_self_eq_false _
  obtain ⟨htake, hdrop⟩ := takeWhile_append_eq hl hr
  simp only [splitAtSpace?, htake, hdrop]

theorem splitAtSpace?_of_notMem (h : ' '.toUInt8 ∉ bytes) : splitAtSpace? bytes = none := by
  have hdrop : bytes.dropWhile (· != ' '.toUInt8) = [] := by
    rw [List.dropWhile_eq_nil_iff]
    intro b hb
    rw [bne_iff_ne]
    rintro rfl
    exact h hb
  simp only [splitAtSpace?, hdrop]

/-- The place of the first space is one that the line has, and so is the one behind it, if only as its end. -/
theorem splitAtSpace_eq (bytes : List UInt8) : splitAtSpace bytes = .ok (splitAtSpace? bytes) := by
  by_cases hmem : ' '.toUInt8 ∈ bytes
  · obtain ⟨l, r, rfl, hl⟩ := List.eq_append_cons_of_mem hmem
    have hfind : (l ++ ' '.toUInt8 :: r).findIdx? (· == ' '.toUInt8) = some l.length := by
      rw [List.findIdx?_append, List.findIdx?_eq_none_iff.mpr]
      · simp [List.findIdx?_cons]
      · intro b hb
        rw [beq_eq_false_iff_ne]
        rintro rfl
        exact hl hb
    have hbefore : bytesBefore (l ++ ' '.toUInt8 :: r) l.length = .ok l := by
      rw [bytesBefore_of_le (by simp), List.take_left' rfl]
    have hfrom : bytesFrom (l ++ ' '.toUInt8 :: r) (l.length + 1) = .ok r := by
      rw [bytesFrom_of_le (by simp), List.append_cons, List.drop_left' (by simp)]
    rw [splitAtSpace?_append hl, splitAtSpace, hfind]
    simp only [hbefore, hfrom]
    rfl
  · have hfind : bytes.findIdx? (· == ' '.toUInt8) = none := by
      rw [List.findIdx?_eq_none_iff]
      intro b hb
      rw [beq_eq_false_iff_ne]
      rintro rfl
      exact hmem hb
    rw [splitAtSpace?_of_notMem hmem, splitAtSpace, hfind]
    rfl

/-- The text without the tag of a full or partial line. -/
def withoutTag : List UInt8 → List UInt8
  | t :: s :: r => if (t == 'F'.toUInt8 || t == 'P'.toUInt8) && s == ' '.toUInt8 then r else t :: s :: r
  | r => r

/-- Only a text of two bytes or more is looked at for a tag. -/
theorem afterTag_eq (bytes : List UInt8) : afterTag bytes = .ok (withoutTag bytes) := by
  match bytes with
  | [] => rfl
  | [b] => rfl
  | t :: s :: more =>
    have hlen : ¬ (t :: s :: more).length < 2 := by simp
    have hfrom : bytesFrom (t :: s :: more) 2 = .ok more := bytesFrom_of_le (by simp)
    rw [afterTag, if_neg hlen, withoutTag]
    show (if (t == 'F'.toUInt8 || t == 'P'.toUInt8) = true then
      (if (s == ' '.toUInt8) = true then bytesFrom (t :: s :: more) 2 else .ok (t :: s :: more))
      else .ok (t :: s :: more)) = _
    rw [hfrom]
    cases t == 'F'.toUInt8 || t == 'P'.toUInt8 <;> cases s == ' '.toUInt8 <;> rfl

/-! ### The reader -/

/-- The parts of a line, whatever its first bytes look like. -/
def parts? (bytes : List UInt8) : Option CriLine := do
  let (time, rest) ← splitAtSpace? bytes
  let timestamp ← Time.rfc3339? (← Text.decode? time).toList
  let (name, rest) ← splitAtSpace? rest
  let stream ← ContainerStream.ofName? name
  return ⟨timestamp, stream, withoutTag rest⟩

/-- **The reader meets no place that the line does not have.** It finds the parts of the lines that look stamped. -/
theorem read_eq {found : Bool} (h : looksStamped bytes = .ok found) :
    read bytes = .ok (if found then parts? bytes else none) := by
  rw [read, h]
  cases found with
  | false => rfl
  | true =>
    simp only [parts?, splitAtSpace_eq, afterTag_eq, bind, Except.bind, pure, Except.pure, Bool.not_true,
      Bool.false_eq_true, if_false, if_true]
    cases splitAtSpace? bytes with
    | none => rfl
    | some split =>
      obtain ⟨time, rest⟩ := split
      dsimp only [Option.bind_some]
      cases Text.decode? time with
      | none => rfl
      | some text =>
        dsimp only [Option.bind_some]
        cases Time.rfc3339? text.toList with
        | none => rfl
        | some timestamp =>
          cases splitAtSpace? rest with
          | none => rfl
          | some split =>
            obtain ⟨name, rest⟩ := split
            dsimp only [Option.bind_some]
            cases ContainerStream.ofName? name <;> rfl

/-- **The parts of a line** are found where the line looks stamped. -/
theorem ofBytes?_eq_some_iff_parts? {cri : CriLine} :
    ofBytes? bytes = some cri ↔ LooksStamped bytes ∧ parts? bytes = some cri := by
  obtain ⟨found, hfound, hiff⟩ := exists_looksStamped bytes
  rw [ofBytes?, read_eq hfound, ← hiff]
  cases found with
  | false => exact iff_of_false (fun h => nomatch h) fun h => Bool.false_ne_true h.1
  | true => exact (and_iff_right rfl).symm

end CriLine

end LegibleLog
