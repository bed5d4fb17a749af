import LegibleLog.Json.Value
import LegibleLog.Number.Decimal
import LegibleLog.Number.Shortest
import LegibleLog.Text.Blank

/-!
# JSON numbers

* `readNumber? cs` — the number at the front of `cs`, as an integer where 64 bits hold it and else as a double;
* `Scalar.numberText` — a number as it is written.

A double is read in few steps, not correctly rounded: the digits are gathered as long as 64 bits hold them, the others
count as powers of ten only, and the result is one product or quotient of doubles, or several when the power is too
low for one.
-/

namespace LegibleLog.Json

/-- Gathers digits onto `n` while the result is below `2 ^ 64`; the digits from the first one that does not fit are
left. -/
def gather (n : Nat) : List Char → Nat × List Char
  | [] => (n, [])
  | c :: r =>
    let next := 10 * n + digitValue c
    if next < UInt64.size then gather next r else (n, c :: r)

/-- The double nearest to a power of ten. -/
def tenPower (n : Nat) : Rat := Binary64.nearest (10 ^ n)

/-- The double `f` times `10 ^ power`, in steps of at most `10 ^ 308`; nothing when it is too large. -/
def scale? (f : Rat) (power : Int) : Option Rat :=
  if f = 0 then some 0
  else if 308 < power then none
  else if 0 ≤ power then Binary64.nearest? (f * tenPower power.toNat)
  else if -308 ≤ power then some (Binary64.div f (tenPower (-power).toNat))
  else scale? (Binary64.div f (tenPower 308)) (power + 308)
termination_by (-power).toNat
decreasing_by omega

/-- The digits of the three parts of a number, the power of ten with its sign. -/
structure NumberParts where
  negative : Bool
  whole : List Char
  fraction : List Char
  power : Option (Bool × List Char)

/-- The power of ten at the front of a text, if the text goes on with one. -/
def readPower? : List Char → Option (Option (Bool × List Char) × List Char)
  | c :: r =>
    if c == 'e' || c == 'E' then
      let (negative, r) := Decimal.splitSign r
      let ds := r.takeWhile Char.isDigit
      if ds.isEmpty then none else some (some (negative, ds), r.dropWhile Char.isDigit)
    else some (none, c :: r)
  | [] => some (none, [])

/-- The digits after the point at the front of a text, if the text goes on with a point. -/
def readDecimals? : List Char → Option (List Char × List Char)
  | '.' :: r =>
    let ds := r.takeWhile Char.isDigit
    if ds.isEmpty then none else some (ds, r.dropWhile Char.isDigit)
  | r => some ([], r)

/-- The digits before the point: a zero alone, or digits without a zero in front. -/
def readWhole? : List Char → Option (List Char × List Char)
  | '0' :: c :: r => if c.isDigit then none else some (['0'], c :: r)
  | r =>
    let ds := r.takeWhile Char.isDigit
    if ds.isEmpty then none else some (ds, r.dropWhile Char.isDigit)

/-- Takes a minus sign off; true when there was one. -/
def splitMinus : List Char → Bool × List Char
  | '-' :: r => (true, r)
  | r => (false, r)

/-- The parts of the number at the front of a text. -/
def readParts? (cs : List Char) : Option (NumberParts × List Char) := do
  let (whole, rest) ← readWhole? (splitMinus cs).2
  let (fraction, rest) ← readDecimals? rest
  let (power, rest) ← readPower? rest
  return (⟨(splitMinus cs).1, whole, fraction, power⟩, rest)

namespace NumberParts

/-- The double that the parts give. -/
def toReal? (p : NumberParts) : Option Scalar :=
  let (n, leftOut) := gather 0 p.whole
  let (m, unused) := gather n p.fraction
  let shift : Int := (leftOut.length : Int) - ((p.fraction.length : Int) - (unused.length : Int))
  let power : Int := match p.power with
    | none => 0
    | some (negative, ds) =>
      let n := (natBelow? 0x8000_0000 ds).getD 0x8000_0000
      if negative then -(n : Int) else n
  (scale? (Binary64.nearest m) (shift + power)).map (Scalar.real p.negative)

/-- The number that the parts give. A negative zero is a double. -/
def toScalar? (p : NumberParts) : Option Scalar :=
  if p.fraction.isEmpty && p.power.isNone then
    match gather 0 p.whole with
    | (n, []) =>
      if !p.negative then some (.integer n)
      else if n ≠ 0 ∧ n ≤ 0x8000_0000_0000_0000 then some (.integer (-n))
      else some (.real true (Binary64.nearest n))
    | _ => p.toReal?
  else p.toReal?

end NumberParts

/-- The number at the front of a text. -/
def readNumber? (cs : List Char) : Option (Scalar × List Char) :=
  match readParts? cs with
  | some (parts, rest) => parts.toScalar?.map (·, rest)
  | none => none

/-! ### A number takes at least one character -/

theorem length_dropWhile_lt {p : Char → Bool} {cs : List Char} (h : (cs.takeWhile p).isEmpty = false) :
    (cs.dropWhile p).length < cs.length := by
  have hsum := congrArg List.length (List.takeWhile_append_dropWhile (p := p) (l := cs))
  have hpos : 0 < (cs.takeWhile p).length := by
    rw [List.length_pos_iff]
    intro hnil
    simp [hnil] at h
  simp only [List.length_append] at hsum
  omega

theorem length_lt_of_readWhole? {cs ds r : List Char} (h : readWhole? cs = some (ds, r)) :
    r.length < cs.length := by
  unfold readWhole? at h
  split at h
  · split at h <;> simp at h
    obtain ⟨-, rfl⟩ := h
    simp
  · dsimp only at h
    split at h <;> simp at h
    next he =>
      obtain ⟨-, rfl⟩ := h
      exact length_dropWhile_lt (by simpa using he)

theorem length_le_of_readDecimals? {cs ds r : List Char} (h : readDecimals? cs = some (ds, r)) :
    r.length ≤ cs.length := by
  unfold readDecimals? at h
  split at h
  · next s =>
    have hle := (List.dropWhile_sublist (l := s) Char.isDigit).length_le
    dsimp only at h
    split at h <;> simp at h
    obtain ⟨-, rfl⟩ := h
    simp only [List.length_cons]
    omega
  · simp only [Option.some.injEq, Prod.mk.injEq] at h
    simp [h.2]

theorem length_splitSign_le (cs : List Char) : (Decimal.splitSign cs).2.length ≤ cs.length := by
  unfold Decimal.splitSign
  split <;> simp

theorem length_le_of_readPower? {cs r : List Char} {power : Option (Bool × List Char)}
    (h : readPower? cs = some (power, r)) : r.length ≤ cs.length := by
  unfold readPower? at h
  split at h
  · next c s =>
    have hsign := length_splitSign_le s
    have hdigits := (List.dropWhile_sublist (l := (Decimal.splitSign s).2) Char.isDigit).length_le
    split at h
    · dsimp only at h
      split at h <;> simp at h
      obtain ⟨-, rfl⟩ := h
      simp only [List.length_cons]
      omega
    · simp only [Option.some.injEq, Prod.mk.injEq] at h
      simp [← h.2]
  · simp only [Option.some.injEq, Prod.mk.injEq] at h
    simp [← h.2]

theorem length_lt_of_readParts? {cs r : List Char} {parts : NumberParts} (h : readParts? cs = some (parts, r)) :
    r.length < cs.length := by
  have hsign : (splitMinus cs).2.length ≤ cs.length := by
    unfold splitMinus
    split <;> simp
  unfold readParts? at h
  simp only [Option.bind_eq_bind, Option.bind_eq_some_iff, Option.pure_def, Option.some.injEq,
    Prod.mk.injEq, Prod.exists] at h
  obtain ⟨_, _, hwhole, _, _, hdecimals, _, _, hpower, -, rfl⟩ := h
  have hlt := length_lt_of_readWhole? hwhole
  have hle := length_le_of_readDecimals? hdecimals
  have hle' := length_le_of_readPower? hpower
  omega

theorem length_lt_of_readNumber? {cs r : List Char} {s : Scalar} (h : readNumber? cs = some (s, r)) :
    r.length < cs.length := by
  unfold readNumber? at h
  split at h
  · next hp =>
    simp only [Option.map_eq_some_iff, Prod.mk.injEq] at h
    obtain ⟨_, _, _, rfl⟩ := h
    exact length_lt_of_readParts? hp
  · simp at h

end LegibleLog.Json
