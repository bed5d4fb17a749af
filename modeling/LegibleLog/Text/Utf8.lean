/-!
# Texts as bytes

* `encode s` — the bytes of `s`;
* `decode? bytes` — the text with those bytes, if there is one.

The two are inverse: `decode?_encode` and `encode_of_decode?`.
-/

namespace LegibleLog.Text

/-- The bytes of a text in UTF-8. -/
def encode (s : String) : List UInt8 := s.toUTF8.data.toList

/-- The text that has these bytes in UTF-8. -/
def decode? (bytes : List UInt8) : Option String := String.fromUTF8? ⟨bytes.toArray⟩

@[simp]
theorem decode?_encode (s : String) : decode? (encode s) = some s := by
  have h : (⟨(encode s).toArray⟩ : ByteArray) = s.toUTF8 := by simp [encode]
  rw [decode?, h, String.fromUTF8?, String.toUTF8_eq_toByteArray, dif_pos s.isValidUTF8]
  rfl

theorem encode_of_decode? {bytes : List UInt8} {s : String} (h : decode? bytes = some s) :
    encode s = bytes := by
  unfold decode? String.fromUTF8? at h
  split at h
  · simp only [Option.some.injEq] at h
    subst h
    simp [encode, String.fromUTF8]
  · simp at h

end LegibleLog.Text
