/-!
# Control sequences of terminals

A control sequence is an escape, an opening bracket, parameter bytes, intermediate bytes and one final byte.

* `Csi.afterSequence? bytes` — the bytes after the control sequence at the front;
* `Csi.strip bytes` — the bytes without their control sequences, which are taken out in one pass from left to right.
-/

namespace LegibleLog.Csi

/-- The bytes `0` to `?`. -/
def isParameter (b : UInt8) : Bool := 0x30 ≤ b && b ≤ 0x3F

/-- The space and the bytes up to `/`. -/
def isIntermediate (b : UInt8) : Bool := 0x20 ≤ b && b ≤ 0x2F

/-- The bytes `@` to `~`. -/
def isFinal (b : UInt8) : Bool := 0x40 ≤ b && b ≤ 0x7E

/-- The bytes after the control sequence at the front, if there is one. -/
def afterSequence? : List UInt8 → Option (List UInt8)
  | 0x1B :: 0x5B :: r =>
    match (r.dropWhile isParameter).dropWhile isIntermediate with
    | b :: rest => if isFinal b then some rest else none
    | [] => none
  | _ => none

theorem length_lt_of_afterSequence? {bytes rest : List UInt8} (h : afterSequence? bytes = some rest) :
    rest.length < bytes.length := by
  unfold afterSequence? at h
  split at h
  · next r =>
    have hp := (List.dropWhile_sublist (l := r) isParameter).length_le
    have hi := (List.dropWhile_sublist (l := r.dropWhile isParameter) isIntermediate).length_le
    split at h
    · next hr =>
      rw [hr, List.length_cons] at hi
      split at h <;> simp at h
      subst h
      simp only [List.length_cons]
      omega
    · simp at h
  · simp at h

/-- The bytes without control sequences after those in `done`, which are held the last one first. -/
def stripFrom (done : List UInt8) : List UInt8 → List UInt8
  | [] => done.reverse
  | b :: r =>
    match _h : afterSequence? (b :: r) with
    | some rest => stripFrom done rest
    | none => stripFrom (b :: done) r
termination_by bytes => bytes.length
decreasing_by
  · exact length_lt_of_afterSequence? _h
  · simp

/-- The bytes without control sequences. -/
def strip (bytes : List UInt8) : List UInt8 := stripFrom [] bytes

end LegibleLog.Csi
