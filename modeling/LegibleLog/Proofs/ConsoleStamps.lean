import LegibleLog.Proofs.Wrappers

/-!
# Timestamps of console lines

* `ZapLine.Stamp` — a timestamp as it is written: numbers of fixed width, a fraction, and a zone;
* `ZapLine.isStamp_iff` — these are the timestamps that a console line may have;
* `ZapLine.Stamp.instant?` — the instant that a timestamp names, told from its numbers;
* `ZapLine.time?_chars` — this is the instant that is read.
-/

namespace LegibleLog

namespace ZapLine

/-! ### The parts of a timestamp -/

/-- A number of a fixed width. -/
structure Digits (width : Nat) where
  chars : List Char
  length_chars : chars.length = width
  isDigit_of_mem : ∀ c ∈ chars, c.isDigit = true

/-- The number itself. -/
def Digits.value {width : Nat} (d : Digits width) : Nat := natOfDigits d.chars

/-- UTC, or hours and minutes east or west of it, with a colon between them or none. -/
inductive Zone where
  | utc
  | offset (west : Bool) (hours : Digits 2) (colon : Bool) (minutes : Digits 2)

namespace Zone

/-- The zone as it is written. -/
def chars : Zone → List Char
  | utc => ['Z']
  | offset west hours colon minutes =>
    (if west then '-' else '+') :: (hours.chars ++ ((if colon then [':'] else []) ++ minutes.chars))

/-- The offset in seconds east. An hour has no more than 60 minutes. -/
def seconds? : Zone → Option Int
  | utc => some 0
  | offset west hours _ minutes =>
    if minutes.value < 60 then
      let seconds : Int := (hours.value * 3600 + minutes.value * 60 : Nat)
      some (if west then -seconds else seconds)
    else none

end Zone

/-- A timestamp as it is written. -/
structure Stamp where
  year : Digits 4
  month : Digits 2
  day : Digits 2
  hour : Digits 2
  minute : Digits 2
  second : Digits 2
  /-- The digits behind the point, which is not written without them. -/
  fraction : List Char
  isDigit_of_mem_fraction : ∀ c ∈ fraction, c.isDigit = true
  zone : Zone

namespace Stamp

/-- The fraction with its point. -/
def fractionChars (stamp : Stamp) : List Char := if stamp.fraction = [] then [] else '.' :: stamp.fraction

/-- What stands behind the seconds. -/
def endChars (stamp : Stamp) : List Char := stamp.fractionChars ++ stamp.zone.chars

/-- The timestamp as it is written. -/
def chars (stamp : Stamp) : List Char :=
  stamp.year.chars ++ '-' :: (stamp.month.chars ++ '-' :: (stamp.day.chars ++ 'T' :: (stamp.hour.chars ++
    ':' :: (stamp.minute.chars ++ ':' :: (stamp.second.chars ++ stamp.endChars)))))

/-- Its bytes. -/
def bytes (stamp : Stamp) : List UInt8 := stamp.chars.map Char.toUInt8

/-- The fraction in nanoseconds: nine digits count. -/
def nanosecond (stamp : Stamp) : Nat := natOfDigits ((stamp.fraction ++ List.replicate 9 '0').take 9)

/-- The date as it is written. -/
def date (stamp : Stamp) : Time.Date := ⟨stamp.year.value, stamp.month.value, stamp.day.value⟩

/-- The time of day. In second 60, a leap second, the clock stays at 59 and its nanoseconds go on. -/
def clock (stamp : Stamp) : Time.Clock :=
  if stamp.second.value = 60 then ⟨stamp.hour.value, stamp.minute.value, 59, 1000000000 + stamp.nanosecond⟩
  else ⟨stamp.hour.value, stamp.minute.value, stamp.second.value, stamp.nanosecond⟩

/-- The instant that the timestamp names, if its date, its time of day and its zone exist. -/
def instant? (stamp : Stamp) : Option Time.Timestamp :=
  stamp.zone.seconds?.bind (Time.Timestamp.ofLocal? stamp.date stamp.clock)

end Stamp

/-! ### Characters and bytes -/

theorem isDigit_toUInt8 {c : Char} (h : c.isDigit = true) : isDigit c.toUInt8 = true := by
  obtain ⟨hlow, hhigh⟩ := Text.toNat_of_isDigit h
  have hnat := Text.toNat_toUInt8 (a := c) (by omega)
  simp only [isDigit, Bool.and_eq_true, decide_eq_true_eq, UInt8.le_iff_toNat_le]
  have hzero : '0'.toUInt8.toNat = 0x30 := rfl
  have hnine : '9'.toUInt8.toNat = 0x39 := rfl
  omega

theorem isDigit_ofUInt8 : ∀ b : UInt8, isDigit b = true → (Char.ofUInt8 b).isDigit = true :=
  Text.forall_byte (by decide +kernel)

theorem map_toUInt8_ofUInt8 (bytes : List UInt8) : (bytes.map Char.ofUInt8).map Char.toUInt8 = bytes := by
  rw [List.map_map]
  exact (List.map_congr_left fun b _ => Text.toUInt8_ofUInt8 b).trans (List.map_id bytes)

/-- Bytes that are digits, as characters. -/
theorem exists_chars_of_isDigit {bytes : List UInt8} (h : ∀ b ∈ bytes, isDigit b = true) :
    ∃ cs : List Char, bytes = cs.map Char.toUInt8 ∧ ∀ c ∈ cs, c.isDigit = true := by
  refine ⟨bytes.map Char.ofUInt8, (map_toUInt8_ofUInt8 bytes).symm, fun c hc => ?_⟩
  obtain ⟨b, hb, rfl⟩ := List.mem_map.mp hc
  exact isDigit_ofUInt8 b (h b hb)

/-! ### What a mask describes -/

section Mask

variable {mask : List Char} {bytes rest : List UInt8}

theorem afterMask?_literal {c : Char} (hc : c ≠ '0') : afterMask? (c :: mask) bytes = some rest ↔
    ∃ more, bytes = c.toUInt8 :: more ∧ afterMask? mask more = some rest := by
  cases bytes with
  | nil => simp [afterMask?]
  | cons b more =>
    rw [afterMask?]
    · simp only [beq_iff_eq, List.cons.injEq, Option.ite_none_right_eq_some]
      constructor
      · rintro ⟨rfl, h⟩
        exact ⟨more, ⟨rfl, rfl⟩, h⟩
      · rintro ⟨more', ⟨rfl, rfl⟩, h⟩
        exact ⟨rfl, h⟩
    · exact hc

theorem afterMask?_digits (width : Nat) : afterMask? (List.replicate width '0' ++ mask) bytes = some rest ↔
    ∃ (d : Digits width) (more : List UInt8),
      bytes = d.chars.map Char.toUInt8 ++ more ∧ afterMask? mask more = some rest := by
  induction width generalizing bytes with
  | zero =>
    constructor
    · intro h
      exact ⟨⟨[], rfl, by simp⟩, bytes, rfl, h⟩
    · rintro ⟨⟨cs, hlen, -⟩, more, rfl, h⟩
      obtain rfl := List.length_eq_zero_iff.mp hlen
      exact h
  | succ width ih =>
    rw [List.replicate_succ, List.cons_append]
    cases bytes with
    | nil =>
      refine ⟨fun h => (by cases h), ?_⟩
      rintro ⟨d, more, hbytes, -⟩
      have hnil : d.chars = [] := by simpa using (List.append_eq_nil_iff.mp hbytes.symm).1
      have hlen := d.length_chars
      rw [hnil] at hlen
      cases hlen
    | cons b more =>
      rw [afterMask?, Option.ite_none_right_eq_some, ih]
      constructor
      · rintro ⟨hb, ⟨cs, hlen, hdigits⟩, more', rfl, h⟩
        have hfirst := isDigit_ofUInt8 b hb
        refine ⟨⟨Char.ofUInt8 b :: cs, by rw [List.length_cons, hlen], ?_⟩, more', ?_, h⟩
        · exact List.forall_mem_cons.mpr ⟨hfirst, hdigits⟩
        · rw [List.map_cons, Text.toUInt8_ofUInt8, List.cons_append]
      · rintro ⟨⟨cs, hlen, hdigits⟩, more', hbytes, h⟩
        obtain ⟨c, cs, rfl⟩ := List.exists_cons_of_length_eq_add_one hlen
        obtain ⟨hc, hdigits⟩ := List.forall_mem_cons.mp hdigits
        obtain ⟨rfl, rfl⟩ := List.cons.inj hbytes
        exact ⟨isDigit_toUInt8 hc, ⟨cs, Nat.succ.inj hlen, hdigits⟩, more', rfl, h⟩

end Mask

/-! ### The form of a timestamp -/

/-- The mask of a zone that is not UTC. -/
def zoneMask (west colon : Bool) : List Char :=
  (if west then '-' else '+') :: (List.replicate 2 '0' ++ ((if colon then [':'] else []) ++ List.replicate 2 '0'))

theorem afterMask?_zoneMask {west colon : Bool} {bytes : List UInt8} :
    afterMask? (zoneMask west colon) bytes = some [] ↔
      ∃ hours minutes, (Zone.offset west hours colon minutes).chars.map Char.toUInt8 = bytes := by
  have hsign : (if west then '-' else '+') ≠ '0' := by cases west <;> decide
  have hend {bytes : List UInt8} : afterMask? (List.replicate 2 '0') bytes = some [] ↔
      ∃ minutes : Digits 2, minutes.chars.map Char.toUInt8 = bytes := by
    have hmask : afterMask? (List.replicate 2 '0' ++ []) bytes = some [] ↔ _ := afterMask?_digits 2
    rw [List.append_nil] at hmask
    rw [hmask]
    constructor
    · rintro ⟨minutes, more, rfl, hmore⟩
      cases hmore
      exact ⟨minutes, (List.append_nil _).symm⟩
    · rintro ⟨minutes, rfl⟩
      exact ⟨minutes, [], (List.append_nil _).symm, rfl⟩
  rw [zoneMask, afterMask?_literal hsign]
  simp only [afterMask?_digits, Zone.chars]
  cases colon with
  | false =>
    simp only [Bool.false_eq_true, if_false, List.nil_append, hend]
    constructor
    · rintro ⟨_, rfl, hours, _, rfl, minutes, rfl⟩
      exact ⟨hours, minutes, by simp⟩
    · rintro ⟨hours, minutes, rfl⟩
      exact ⟨_, List.map_cons, hours, _, List.map_append, minutes, rfl⟩
  | true =>
    have hcolon : (':' : Char) ≠ '0' := by decide
    simp only [if_true, List.singleton_append, afterMask?_literal hcolon, hend]
    constructor
    · rintro ⟨_, rfl, hours, _, rfl, _, rfl, minutes, rfl⟩
      exact ⟨hours, minutes, by simp⟩
    · rintro ⟨hours, minutes, rfl⟩
      exact ⟨_, List.map_cons, hours, _, List.map_append, _, List.map_cons, minutes, rfl⟩

theorem isZone_iff {bytes : List UInt8} : isZone bytes = true ↔ ∃ zone : Zone, zone.chars.map Char.toUInt8 = bytes := by
  have hutc : afterMask? ['Z'] bytes = some [] ↔ Zone.utc.chars.map Char.toUInt8 = bytes := by
    have hz : ('Z' : Char) ≠ '0' := by decide
    simp only [afterMask?_literal hz, afterMask?, Option.some.injEq, exists_eq_right]
    exact eq_comm
  have hmasks : ["Z", "+00:00", "+0000", "-00:00", "-0000"].map String.toList =
      [['Z'], zoneMask false true, zoneMask false false, zoneMask true true, zoneMask true false] := by decide
  have hany : isZone bytes = (["Z", "+00:00", "+0000", "-00:00", "-0000"].map String.toList).any
      fun mask => afterMask? mask bytes == some [] := by
    rw [List.any_map]
    rfl
  rw [hany, hmasks]
  simp only [List.any_cons, List.any_nil, Bool.or_false, Bool.or_eq_true, beq_iff_eq, hutc, afterMask?_zoneMask]
  constructor
  · rintro (h | ⟨hours, minutes, h⟩ | ⟨hours, minutes, h⟩ | ⟨hours, minutes, h⟩ | ⟨hours, minutes, h⟩)
    all_goals exact ⟨_, h⟩
  · rintro ⟨zone, h⟩
    cases zone with
    | utc => exact .inl h
    | offset west hours colon minutes =>
      cases west with
      | false =>
        cases colon with
        | true => exact .inr (.inl ⟨hours, minutes, h⟩)
        | false => exact .inr (.inr (.inl ⟨hours, minutes, h⟩))
      | true =>
        cases colon with
        | true => exact .inr (.inr (.inr (.inl ⟨hours, minutes, h⟩)))
        | false => exact .inr (.inr (.inr (.inr ⟨hours, minutes, h⟩)))

/-- A zone begins with neither a digit nor a point. -/
theorem Zone.exists_chars (zone : Zone) :
    ∃ c cs, zone.chars = c :: cs ∧ c.isDigit = false ∧ isDigit c.toUInt8 = false ∧ c.toUInt8 ≠ '.'.toUInt8 := by
  cases zone with
  | utc => exact ⟨_, _, rfl, by decide⟩
  | offset west hours colon minutes =>
    refine ⟨_, _, rfl, ?_⟩
    cases west <;> decide

theorem isFractionAndZone_iff {bytes : List UInt8} : isFractionAndZone bytes = true ↔
    ∃ (fraction : List Char) (zone : Zone), (∀ c ∈ fraction, c.isDigit = true) ∧
      ((if fraction = [] then [] else '.' :: fraction) ++ zone.chars).map Char.toUInt8 = bytes := by
  constructor
  · intro h
    have hbare : isZone bytes = true → ∃ (fraction : List Char) (zone : Zone), (∀ c ∈ fraction, c.isDigit = true) ∧
        ((if fraction = [] then [] else '.' :: fraction) ++ zone.chars).map Char.toUInt8 = bytes := by
      intro hzone
      obtain ⟨zone, hzone⟩ := isZone_iff.mp hzone
      exact ⟨[], zone, List.forall_mem_nil _, hzone⟩
    unfold isFractionAndZone at h
    split at h
    · next point b r =>
      split at h
      · next hpoint =>
        rw [Bool.and_eq_true, beq_iff_eq] at hpoint
        obtain ⟨rfl, hb⟩ := hpoint
        obtain ⟨zone, hzone⟩ := isZone_iff.mp h
        have hrun : ∀ b' ∈ b :: r.takeWhile isDigit, isDigit b' = true :=
          List.forall_mem_cons.mpr ⟨hb, fun _ => List.mem_takeWhile_imp⟩
        obtain ⟨cs, hcs, hdigits⟩ := exists_chars_of_isDigit hrun
        have hne : cs ≠ [] := by
          rintro rfl
          cases hcs
        refine ⟨cs, zone, hdigits, ?_⟩
        rw [if_neg hne, List.cons_append, List.map_cons, List.map_append, ← hcs, hzone, List.cons_append,
          List.takeWhile_append_dropWhile]
      · exact hbare h
    · exact hbare h
  · rintro ⟨fraction, zone, hdigits, rfl⟩
    have hzone := isZone_iff.mpr ⟨zone, rfl⟩
    obtain ⟨c, cs, hchars, -, hdigit, hpoint⟩ := zone.exists_chars
    cases fraction with
    | nil =>
      rw [if_pos rfl, List.nil_append]
      unfold isFractionAndZone
      split
      · next point b r hbytes =>
        rw [hchars, List.map_cons] at hbytes
        obtain ⟨rfl, -⟩ := List.cons.inj hbytes
        rw [if_neg (by simp [hpoint]), ← hbytes, ← List.map_cons, ← hchars]
        exact hzone
      · exact hzone
    | cons d ds =>
      obtain ⟨hd, hds⟩ := List.forall_mem_cons.mp hdigits
      have hrun : ∀ b ∈ ds.map Char.toUInt8, isDigit b = true :=
        List.forall_mem_map.mpr fun c hc => isDigit_toUInt8 (hds c hc)
      have hhead : ∀ b ∈ (zone.chars.map Char.toUInt8).head?, isDigit b = false := by
        rw [hchars]
        rintro b ⟨⟩
        exact hdigit
      rw [if_neg (List.cons_ne_nil d ds)]
      simp only [List.cons_append, List.map_cons, List.map_append, isFractionAndZone]
      rw [if_pos (by simp [isDigit_toUInt8 hd]), (takeWhile_append_eq hrun hhead).2]
      exact hzone

/-- **The form of a timestamp.** -/
theorem isStamp_iff {word : List UInt8} : isStamp word = true ↔ ∃ stamp : Stamp, stamp.bytes = word := by
  have hmask : "0000-00-00T00:00:00".toList = List.replicate 4 '0' ++ '-' :: (List.replicate 2 '0' ++ '-' ::
      (List.replicate 2 '0' ++ 'T' :: (List.replicate 2 '0' ++ ':' :: (List.replicate 2 '0' ++ ':' ::
        (List.replicate 2 '0' ++ []))))) := by decide
  have hhyphen : ('-' : Char) ≠ '0' := by decide
  have hletter : ('T' : Char) ≠ '0' := by decide
  have hcolon : (':' : Char) ≠ '0' := by decide
  have hiff : isStamp word = true ↔
      ∃ rest, afterMask? "0000-00-00T00:00:00".toList word = some rest ∧ isFractionAndZone rest = true := by
    unfold isStamp
    cases afterMask? "0000-00-00T00:00:00".toList word <;> simp
  rw [hiff, hmask]
  simp only [afterMask?_digits, afterMask?_literal hhyphen, afterMask?_literal hletter, afterMask?_literal hcolon,
    isFractionAndZone_iff]
  constructor
  · rintro ⟨rest, ⟨year, _, rfl, _, rfl, month, _, rfl, _, rfl, day, _, rfl, _, rfl, hour, _, rfl, _, rfl,
      minute, _, rfl, _, rfl, second, _, rfl, hend⟩, fraction, zone, hdigits, hrest⟩
    cases hend
    refine ⟨⟨year, month, day, hour, minute, second, fraction, hdigits, zone⟩, ?_⟩
    rw [← hrest]
    simp [Stamp.bytes, Stamp.chars, Stamp.endChars, Stamp.fractionChars]
  · rintro ⟨stamp, rfl⟩
    refine ⟨stamp.endChars.map Char.toUInt8, ?_, stamp.fraction, stamp.zone, stamp.isDigit_of_mem_fraction, rfl⟩
    simp only [Stamp.bytes, Stamp.chars, List.map_append, List.map_cons]
    exact ⟨stamp.year, _, rfl, _, rfl, stamp.month, _, rfl, _, rfl, stamp.day, _, rfl, _, rfl,
      stamp.hour, _, rfl, _, rfl, stamp.minute, _, rfl, _, rfl, stamp.second, _, rfl, rfl⟩

/-! ### Visible characters -/

/-- A visible character in ASCII. -/
def IsVisible (c : Char) : Prop := 0x20 < c.toNat ∧ c.toNat < 0x80

instance : DecidablePred IsVisible := fun c => by
  unfold IsVisible
  infer_instance

theorem isVisible_of_isDigit (c : Char) (h : c.isDigit = true) : IsVisible c := by
  have hbounds := Text.toNat_of_isDigit h
  unfold IsVisible
  omega

theorem isVisible_of_isAlpha (c : Char) (h : c.isAlpha = true) : IsVisible c := by
  have hbetween : ∀ {lo hi : UInt32}, lo ≤ c.val ∧ c.val ≤ hi → lo.toNat ≤ c.toNat ∧ c.toNat ≤ hi.toNat :=
    fun hc => ⟨UInt32.le_iff_toNat_le.mp hc.1, UInt32.le_iff_toNat_le.mp hc.2⟩
  rcases (Bool.or_eq_true _ _).mp h with hupper | hlower
  · obtain ⟨hlow, hhigh⟩ : 0x41 ≤ c.toNat ∧ c.toNat ≤ 0x5A := hbetween (of_decide_eq_true hupper)
    exact ⟨by omega, by omega⟩
  · obtain ⟨ha, hz⟩ := (Bool.and_eq_true _ _).mp hlower
    obtain ⟨hlow, hhigh⟩ : 0x61 ≤ c.toNat ∧ c.toNat ≤ 0x7A := hbetween ⟨of_decide_eq_true ha, of_decide_eq_true hz⟩
    exact ⟨by omega, by omega⟩

/-- There is no blank to skip before a visible character. -/
theorem trimStart_of_isVisible {c : Char} (h : IsVisible c) (cs : List Char) : Text.trimStart (c :: cs) = c :: cs := by
  rw [Text.trimStart, List.dropWhile_cons_of_neg (by simp [Text.isBlank_of_visible h.1 h.2])]

theorem ofUInt8_toUInt8 {c : Char} (h : IsVisible c) : Char.ofUInt8 c.toUInt8 = c := by
  rw [← Char.toNat_inj, Text.toNat_ofUInt8, Text.toNat_toUInt8 h.2]

theorem map_ofUInt8_toUInt8 {cs : List Char} (h : ∀ c ∈ cs, IsVisible c) :
    (cs.map Char.toUInt8).map Char.ofUInt8 = cs := by
  rw [List.map_map]
  exact (List.map_congr_left fun c hc => ofUInt8_toUInt8 (h c hc)).trans (List.map_id cs)

theorem not_blank_of_isVisible {cs : List Char} (h : ∀ c ∈ cs, IsVisible c) :
    ∀ b ∈ cs.map Char.toUInt8, Text.isAsciiBlank b = false := by
  rw [List.forall_mem_map]
  intro c hc
  refine Text.isAsciiBlank_of_visible _ ?_
  rw [Text.toNat_toUInt8 (h c hc).2]
  exact (h c hc).1

theorem Digits.isVisible_of_mem {width : Nat} (d : Digits width) : ∀ c ∈ d.chars, IsVisible c :=
  fun c hc => isVisible_of_isDigit c (d.isDigit_of_mem c hc)

theorem Zone.isVisible_of_mem_chars (zone : Zone) : ∀ c ∈ zone.chars, IsVisible c := by
  cases zone with
  | utc => exact List.forall_mem_singleton.mpr (by decide)
  | offset west hours colon minutes =>
    have hcolon : ∀ c ∈ if colon then [':'] else [], IsVisible c := by
      cases colon
      · exact List.forall_mem_nil _
      · exact List.forall_mem_singleton.mpr (by decide)
    refine List.forall_mem_cons.mpr ⟨by cases west <;> decide, List.forall_mem_append.mpr ⟨hours.isVisible_of_mem, ?_⟩⟩
    exact List.forall_mem_append.mpr ⟨hcolon, minutes.isVisible_of_mem⟩

theorem Stamp.isVisible_of_mem_chars (stamp : Stamp) : ∀ c ∈ stamp.chars, IsVisible c := by
  have hfraction : ∀ c ∈ stamp.fractionChars, IsVisible c := by
    unfold fractionChars
    split
    · exact List.forall_mem_nil _
    · exact List.forall_mem_cons.mpr
        ⟨by decide, fun c hc => isVisible_of_isDigit c (stamp.isDigit_of_mem_fraction c hc)⟩
  simp only [chars, endChars, List.forall_mem_append, List.forall_mem_cons]
  exact ⟨stamp.year.isVisible_of_mem, by decide, stamp.month.isVisible_of_mem, by decide, stamp.day.isVisible_of_mem,
    by decide, stamp.hour.isVisible_of_mem, by decide, stamp.minute.isVisible_of_mem, by decide,
    stamp.second.isVisible_of_mem, hfraction, stamp.zone.isVisible_of_mem_chars⟩

/-- A timestamp is told from its bytes. -/
theorem Stamp.map_ofUInt8_bytes (stamp : Stamp) : stamp.bytes.map Char.ofUInt8 = stamp.chars :=
  map_ofUInt8_toUInt8 stamp.isVisible_of_mem_chars

theorem Stamp.not_blank_of_mem_bytes (stamp : Stamp) : ∀ b ∈ stamp.bytes, Text.isAsciiBlank b = false :=
  not_blank_of_isVisible stamp.isVisible_of_mem_chars

/-! ### The instant -/

section Read

open Time

variable {width : Nat} (d : Digits width)

theorem Digits.readDigits?_append {least : Nat} (h : least ≤ width) (rest : List Char) :
    readDigits? least width (d.chars ++ rest) = some (d.value, rest) := by
  have htake : (d.chars ++ rest).take width = d.chars := List.take_left' d.length_chars
  have hdigits : d.chars.takeWhile Char.isDigit = d.chars := List.takeWhile_eq_self_iff.mpr d.isDigit_of_mem
  simp only [readDigits?, htake, hdigits, d.length_chars, if_neg (Nat.not_lt.mpr h), List.drop_left' d.length_chars]
  rfl

theorem Digits.exists_cons (h : 0 < width) : ∃ c cs, d.chars = c :: cs ∧ c.isDigit = true := by
  obtain ⟨c, cs, hchars⟩ := List.exists_cons_of_length_pos (l := d.chars) (by rw [d.length_chars]; exact h)
  exact ⟨c, cs, hchars, d.isDigit_of_mem c (hchars ▸ List.mem_cons_self)⟩

theorem Digits.trimStart_append (h : 0 < width) (rest : List Char) :
    Text.trimStart (d.chars ++ rest) = d.chars ++ rest := by
  obtain ⟨c, cs, hchars, hc⟩ := d.exists_cons h
  rw [hchars, List.cons_append, trimStart_of_isVisible (isVisible_of_isDigit c hc)]

theorem Digits.readNumber?_append (d : Digits 2) (rest : List Char) :
    Element.readNumber? 2 (d.chars ++ rest) = some (d.value, rest) := by
  rw [Element.readNumber?, d.trimStart_append (by decide), d.readDigits?_append (by decide)]

theorem Digits.readYear?_append (d : Digits 4) (rest : List Char) :
    Element.readYear? (d.chars ++ rest) = some ((d.value : Int), rest) := by
  obtain ⟨c, cs, hchars, hc⟩ := d.exists_cons (by decide)
  have hread : readDigits? 1 4 (d.chars ++ rest) = some (d.value, rest) := d.readDigits?_append (by decide) rest
  rw [Element.readYear?, d.trimStart_append (by decide)]
  rw [hchars, List.cons_append] at hread ⊢
  split
  · next heq =>
    obtain ⟨rfl, -⟩ := List.cons.inj heq
    cases hc
  · next heq =>
    obtain ⟨rfl, -⟩ := List.cons.inj heq
    cases hc
  · rw [hread]
    rfl

/-- What is read of a timestamp before its zone. -/
def Stamp.parts (stamp : Stamp) : Parts :=
  { year := some (stamp.year.value : Int), month := some stamp.month.value, day := some stamp.day.value,
    hour := some stamp.hour.value, minute := some stamp.minute.value, second := some stamp.second.value,
    nanosecond := if stamp.fraction = [] then none else some stamp.nanosecond }

theorem Stamp.read?_fraction (stamp : Stamp) :
    Element.fraction.read? { stamp.parts with nanosecond := none } stamp.endChars =
      some (stamp.parts, stamp.zone.chars) := by
  obtain ⟨c, cs, hzone, hc, -, hpoint⟩ := stamp.zone.exists_chars
  cases hfraction : stamp.fraction with
  | nil =>
    have hchars : stamp.endChars = stamp.zone.chars := by
      rw [endChars, fractionChars, if_pos hfraction, List.nil_append]
    simp only [Element.read?, hchars]
    split
    · next heq =>
      rw [hzone] at heq
      obtain ⟨rfl, -⟩ := List.cons.inj heq
      exact absurd rfl hpoint
    · simp [parts, hfraction]
  | cons d ds =>
    have hne : stamp.fraction ≠ [] := by
      rw [hfraction]
      exact List.cons_ne_nil d ds
    have hchars : stamp.endChars = '.' :: (stamp.fraction ++ stamp.zone.chars) := by
      rw [endChars, fractionChars, if_neg hne, List.cons_append]
    have hhead : ∀ c' ∈ stamp.zone.chars.head?, c'.isDigit = false := by
      rw [hzone]
      rintro c' ⟨⟩
      exact hc
    obtain ⟨htake, hdrop⟩ := takeWhile_append_eq stamp.isDigit_of_mem_fraction hhead
    have hread : readFraction? (stamp.fraction ++ stamp.zone.chars) = some (stamp.nanosecond, stamp.zone.chars) := by
      simp only [readFraction?, htake, hdrop, List.isEmpty_iff, if_neg hne, nanosecond, List.take_append,
        List.take_replicate, List.length_take]
      congr 5
      omega
    simp [Element.read?, hchars, hread, parts, hne]

theorem readFront?_append (front back : Pattern) (p : Parts) (cs : List Char) :
    Pattern.readFront? (front ++ back) p cs =
      (Pattern.readFront? front p cs).bind fun (p, rest) => Pattern.readFront? back p rest := by
  induction front generalizing p cs with
  | nil => rfl
  | cons e front ih =>
    simp only [List.cons_append, Pattern.readFront?]
    split
    · exact ih _ _
    · rfl

theorem Stamp.readFront?_chars (stamp : Stamp) :
    compactPattern.readFront? {} stamp.chars = Pattern.readFront? [.offset] stamp.parts stamp.zone.chars := by
  have hsplit : compactPattern = (Pattern.ymd '-' ++ [.literal 'T'] ++ Pattern.hms) ++ ([.fraction] ++ [.offset]) := rfl
  have hfront : Pattern.readFront? (Pattern.ymd '-' ++ [.literal 'T'] ++ Pattern.hms) {} stamp.chars =
      some ({ stamp.parts with nanosecond := none }, stamp.endChars) := by
    simp [Pattern.ymd, Pattern.hms, chars, Pattern.readFront?, Element.read?, readChar?, Digits.readYear?_append,
      Digits.readNumber?_append, parts]
  rw [hsplit, readFront?_append, hfront, Option.bind_some]
  dsimp only [List.cons_append, List.nil_append]
  rw [Pattern.readFront?, stamp.read?_fraction]

theorem Stamp.readTimestamp?_chars (stamp : Stamp) : readTimestamp? stamp.chars =
    (readZone? stamp.zone.chars).map fun (offset, rest) => ({ stamp.parts with offset := some offset }, rest) := by
  have hfraction := stamp.read?_fraction
  simp only [parts] at hfraction
  simp only [readTimestamp?, chars, readChar?, readDateEnd?, Digits.readDigits?_append _ (Nat.le_refl _),
    Option.bind_eq_bind, Option.bind_some, beq_self_eq_true, if_true, hfraction]
  cases readZone? stamp.zone.chars <;> rfl

theorem readSign?_sign (west : Bool) (rest : List Char) :
    readSign? true ((if west then '-' else '+') :: rest) = some (west, rest) := by
  cases west <;> rfl

/-- The digits of hours and minutes are read whatever is skipped between them, a colon or not. -/
theorem readOffset?_chars {between : List Char → Option (List Char)} {west colon : Bool} {hours minutes : Digits 2}
    (hbetween : between ((if colon then [':'] else []) ++ minutes.chars) = some minutes.chars) :
    readOffset? between true (Zone.offset west hours colon minutes).chars =
      (Zone.offset west hours colon minutes).seconds?.map (·, []) := by
  have hminutes := minutes.readDigits?_append (Nat.le_refl 2) []
  rw [List.append_nil] at hminutes
  simp only [readOffset?, Zone.chars, readSign?_sign, hours.readDigits?_append (Nat.le_refl 2), hbetween, hminutes,
    Option.bind_eq_bind, Option.bind_some, Zone.seconds?]
  split <;> rfl

/-- A fraction that is not written counts as none. -/
theorem Stamp.nanosecond_getD (stamp : Stamp) : stamp.parts.nanosecond.getD 0 = stamp.nanosecond := by
  by_cases h : stamp.fraction = []
  · have hzero : stamp.nanosecond = 0 := by
      rw [nanosecond, h]
      decide
    simp [parts, h, hzero]
  · simp [parts, h]

/-- The instant of the parts with an offset. -/
theorem Stamp.toTimestamp?_parts (stamp : Stamp) (offset : Int) :
    Parts.toTimestamp? { stamp.parts with offset := some offset } =
      Timestamp.ofLocal? stamp.date stamp.clock offset := by
  have hdate : Parts.date? { stamp.parts with offset := some offset } =
      if stamp.date.isValid then some stamp.date else none := by
    simp [Parts.date?, parts, Parts.fullYear?]
    rfl
  have hclock : Parts.clock? { stamp.parts with offset := some offset } =
      if stamp.clock.isValid then some stamp.clock else none := by
    simp only [Parts.clock?, stamp.nanosecond_getD]
    by_cases hleap : stamp.second.value = 60 <;> simp [parts, clock, hleap]
  simp only [Parts.toTimestamp?, hdate, hclock, Timestamp.ofLocal?]
  -- the date and the time of day are looked at once more together with the offset
  cases hd : stamp.date.isValid <;> cases hc : stamp.clock.isValid <;> simp [hd, hc]

/-! #### Both readers -/

section Instant

variable (stamp : Stamp) {west colon : Bool} {hours minutes : Digits 2}

/-- The patterns of written times have no letter for UTC. -/
theorem Stamp.zoned?_of_utc (h : stamp.zone = .utc) : compactPattern.zoned? stamp.chars = none := by
  simp only [Pattern.zoned?, Pattern.read?, stamp.readFront?_chars, h]
  rfl

theorem Stamp.zoned?_of_offset (h : stamp.zone = .offset west hours colon minutes) :
    compactPattern.zoned? stamp.chars = stamp.instant? := by
  have htrim : Text.trimStart stamp.zone.chars = stamp.zone.chars := by
    obtain ⟨c, cs, hchars, -⟩ := stamp.zone.exists_chars
    rw [hchars, trimStart_of_isVisible (stamp.zone.isVisible_of_mem_chars c (hchars ▸ List.mem_cons_self))]
  have hbetween : ((if colon then [':'] else []) ++ minutes.chars).dropWhile (fun c => c == ':' || Text.isBlank c) =
      minutes.chars := by
    obtain ⟨c, cs, hchars, hc⟩ := minutes.exists_cons (by decide)
    have hvisible := isVisible_of_isDigit c hc
    have hstop : (c == ':' || Text.isBlank c) = false := by
      rw [Text.isBlank_of_visible hvisible.1 hvisible.2, Bool.or_false, beq_eq_false_iff_ne]
      rintro rfl
      cases hc
    rw [hchars]
    cases colon <;> simp [hstop]
  have hread : readOffset? (fun r => some (r.dropWhile fun c => c == ':' || Text.isBlank c)) true stamp.zone.chars =
      stamp.zone.seconds?.map (·, []) := by
    rw [h]
    exact readOffset?_chars (congrArg some hbetween)
  simp only [Pattern.zoned?, Pattern.read?, stamp.readFront?_chars, Pattern.readFront?, Element.read?, htrim, hread,
    instant?]
  cases stamp.zone.seconds? with
  | none => rfl
  | some offset => exact stamp.toTimestamp?_parts offset

theorem Stamp.rfc3339?_of_utc (h : stamp.zone = .utc) : rfc3339? stamp.chars = stamp.instant? := by
  simp only [rfc3339?, stamp.readTimestamp?_chars, instant?, h]
  exact stamp.toTimestamp?_parts 0

/-- An offset in the form of RFC 3339 has a colon, and it is below a day, as that of an instant always is. -/
theorem Stamp.rfc3339?_of_offset (h : stamp.zone = .offset west hours colon minutes) :
    rfc3339? stamp.chars = if colon then stamp.instant? else none := by
  have hzone : readZone? stamp.zone.chars = (readOffset? (readChar? ':') true stamp.zone.chars).bind
      fun (offset, rest) => if -86400 < offset ∧ offset < 86400 then some (offset, rest) else none := by
    rw [h]
    cases west <;> rfl
  simp only [rfc3339?, stamp.readTimestamp?_chars, hzone]
  cases colon with
  | true =>
    have hread : readOffset? (readChar? ':') true stamp.zone.chars = stamp.zone.seconds?.map (·, []) := by
      rw [h]
      exact readOffset?_chars rfl
    rw [hread, if_pos rfl, instant?]
    cases stamp.zone.seconds? with
    | none => rfl
    | some offset =>
      by_cases hrange : -86400 < offset ∧ offset < 86400
      · simp only [Option.map_some, Option.bind_some, if_pos hrange]
        exact stamp.toTimestamp?_parts offset
      · have hnone : Timestamp.ofLocal? stamp.date stamp.clock offset = none := by
          rw [Timestamp.ofLocal?, if_neg]
          simp only [Bool.and_eq_true, decide_eq_true_eq]
          rintro ⟨⟨-, hlow⟩, hhigh⟩
          exact hrange ⟨hlow, hhigh⟩
        rw [Option.bind_some, hnone]
        simp only [Option.map_some, Option.bind_some, if_neg hrange, Option.map_none]
  | false =>
    have hcolon : readChar? ':' minutes.chars = none := by
      obtain ⟨c, cs, hchars, hc⟩ := minutes.exists_cons (by decide)
      have hne : (c == ':') = false := by
        rw [beq_eq_false_iff_ne]
        rintro rfl
        cases hc
      rw [hchars, readChar?, hne]
      rfl
    have hread : readOffset? (readChar? ':') true stamp.zone.chars = none := by
      simp only [readOffset?, h, Zone.chars, readSign?_sign, hours.readDigits?_append (Nat.le_refl 2),
        Bool.false_eq_true, if_false, List.nil_append, hcolon, Option.bind_eq_bind, Option.bind_some, Option.bind_none]
    rw [hread]
    rfl

end Instant

/-- **The instant of a timestamp** is the one that its numbers name. -/
theorem time?_chars (stamp : Stamp) : time? stamp.chars = stamp.instant? := by
  cases h : stamp.zone with
  | utc =>
    rw [time?, stamp.zoned?_of_utc h, stamp.rfc3339?_of_utc h]
    rfl
  | offset west hours colon minutes =>
    rw [time?, stamp.zoned?_of_offset h, stamp.rfc3339?_of_offset h]
    cases colon <;> cases stamp.instant? <;> rfl

end Read

end ZapLine

end LegibleLog
