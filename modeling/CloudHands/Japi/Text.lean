import CloudHands.Japi.DataInput

/-!
# Texts on the Java side

`Text.decode` of `utils/Text.java` and `unpackString` of the msgpack library turn bytes into
a string as UTF-8 and put replacement characters where the bytes are not UTF-8. What exactly
stands there is a parameter; a string never has the bytes that are not UTF-8.
-/

namespace CloudHands.Japi

open Lib Lib.TokenReader DataInput

def utf8Bytes (s : String) : List UInt8 := s.toByteArray.data.toList

def IsUtf8 (bs : List UInt8) : Prop := ByteArray.IsValidUTF8 ⟨bs.toArray⟩

instance (bs : List UInt8) : Decidable (IsUtf8 bs) :=
  inferInstanceAs (Decidable (ByteArray.IsValidUTF8 _))

/-- `replaced` is the text that the decoder makes of malformed input. -/
def decodeText (replaced : List UInt8 → String) (data : List UInt8) : String :=
  (String.fromUTF8? ⟨data.toArray⟩).getD (replaced data)

/-- `Text.readString(in, 2)`. -/
def readString16 (replaced : List UInt8 → String) : DataInput String := do
  let length ← readUnsignedShort
  if length = 0 then pure ""
  else do
    let data ← take length
    pure (decodeText replaced data)

theorem utf8Bytes_fromUTF8 {bs : List UInt8} (h : IsUtf8 bs) :
    utf8Bytes (String.fromUTF8 ⟨bs.toArray⟩ h) = bs := by
  simp [utf8Bytes, String.fromUTF8]

theorem isUtf8_utf8Bytes (s : String) : IsUtf8 (utf8Bytes s) := by
  simpa [IsUtf8, utf8Bytes] using s.isValidUTF8

theorem utf8Bytes_decodeText_iff {replaced : List UInt8 → String} {bs : List UInt8} :
    utf8Bytes (decodeText replaced bs) = bs ↔ IsUtf8 bs := by
  constructor
  · intro h
    rw [← h]
    exact isUtf8_utf8Bytes _
  · intro h
    have hdecode : String.fromUTF8? ⟨bs.toArray⟩ = some (String.fromUTF8 ⟨bs.toArray⟩ h) :=
      dif_pos h
    rw [decodeText, hdecode]
    exact utf8Bytes_fromUTF8 h

theorem decodeText_utf8Bytes (replaced : List UInt8 → String) (s : String) :
    decodeText replaced (utf8Bytes s) = s := by
  have h : utf8Bytes (decodeText replaced (utf8Bytes s)) = utf8Bytes s :=
    utf8Bytes_decodeText_iff.2 (isUtf8_utf8Bytes s)
  have hdata : (decodeText replaced (utf8Bytes s)).toByteArray.data = s.toByteArray.data :=
    Array.toList_inj.1 h
  exact String.toByteArray_inj.1 (ByteArray.ext hdata)

theorem yields_string16 (replaced : List UInt8 → String) {bs : List UInt8}
    (h : bs.length < 2 ^ 16) :
    Yields (readString16 replaced) (bigEndian 2 bs.length ++ bs) (decodeText replaced bs) := by
  refine (yields_unsigned (by omega)).bind ?_
  split
  · rename_i hzero
    obtain rfl := List.eq_nil_of_length_eq_zero hzero
    exact yields_pure _
  · exact (yields_take bs).bind_pure (yields_pure _)

end CloudHands.Japi
