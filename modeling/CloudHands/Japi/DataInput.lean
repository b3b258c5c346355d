import CloudHands.Lib.BigEndian
import CloudHands.Lib.TokenReader
import CloudHands.Lib.Word

/-!
# The big-endian input of the Java side

The methods of `java.io.DataInput` that the session classes use. All of them throw at the
end of the stream. `readInt` and `readLong` are signed, and an array length is a signed
32-bit number.
-/

namespace CloudHands.Japi

open Lib Lib.TokenReader Word

abbrev DataInput (α : Type) : Type := TokenReader UInt8 α

namespace DataInput

/-- The unsigned value of the next `width` bytes. -/
def readUnsigned (width : ℕ) : DataInput ℕ := ofBigEndian <$> take width

def readUnsignedByte : DataInput ℕ := readUnsigned 1
def readUnsignedShort : DataInput ℕ := readUnsigned 2
def readInt : DataInput ℤ := signed 32 <$> readUnsigned 4
def readLong : DataInput ℤ := signed 64 <$> readUnsigned 8

/-- The cast `(int)` of a long: the low 32 bits, signed. -/
def intCast (v : ℤ) : ℤ := signed 32 (v % 2 ^ 32).toNat

/-- `new byte[n]` and `readFully` into it; a negative length throws. -/
def readArray (n : ℤ) : DataInput (List UInt8) := if n < 0 then throw else take n.toNat

def readSized : DataInput (ℤ × List UInt8) := do
  let size ← readLong
  let data ← readArray (intCast size)
  pure (size, data)

/-- The test `== 1` on a flag. -/
theorem flag_beq_one (b : Bool) : ((if b then 1 else 0 : ℕ) == 1) = b := by
  cases b <;> rfl

theorem yields_unsigned {width v : ℕ} (h : v < 256 ^ width) :
    Yields (readUnsigned width) (bigEndian width v) v := by
  have htake := (yields_take (bigEndian width v)).map ofBigEndian
  rwa [length_bigEndian, ofBigEndian_bigEndian_of_lt h] at htake

theorem yields_uint8 (v : UInt8) : Yields readUnsignedByte (bigEndian 1 v.toNat) v.toNat :=
  yields_unsigned v.toNat_lt

theorem yields_uint16 (v : UInt16) : Yields readUnsignedShort (bigEndian 2 v.toNat) v.toNat :=
  yields_unsigned v.toNat_lt

theorem yields_int (v : UInt32) : Yields readInt (bigEndian 4 v.toNat) (signed 32 v.toNat) :=
  (yields_unsigned v.toNat_lt).map _

theorem yields_long {v : ℕ} (h : v < 2 ^ 63) : Yields readLong (bigEndian 8 v) v := by
  have hbytes : v < 256 ^ 8 := by omega
  have hread := (yields_unsigned hbytes).map (signed 64)
  rwa [signed_of_lt (w := 64) (by omega)] at hread

theorem intCast_of_lt {n : ℕ} (h : n < 2 ^ 31) : intCast n = n := by
  have hmod : ((n : ℤ) % 2 ^ 32).toNat = n := by omega
  rw [intCast, hmod, signed_of_lt (by omega)]

theorem intCast_lt (v : ℤ) : intCast v < 2 ^ 31 :=
  signed_lt (w := 32) (by omega)

theorem yields_array (bs : List UInt8) : Yields (readArray bs.length) bs bs := by
  rw [readArray, if_neg (by omega), Int.toNat_natCast]
  exact yields_take bs

theorem yields_sized {bs : List UInt8} (h : bs.length < 2 ^ 31) :
    Yields readSized (bigEndian 8 bs.length ++ bs) ((bs.length : ℤ), bs) := by
  refine (yields_long (by omega)).bind ?_
  rw [intCast_of_lt h]
  exact (yields_array bs).bind_pure (yields_pure _)

theorem guarantees_array {n : ℤ} (h : n < 2 ^ 31) :
    Guarantees (readArray n) fun bs => bs.length < 2 ^ 31 := by
  rw [readArray]
  split
  · exact guarantees_throw
  intro ts bs rest hrun
  simp only [StateT.run, take] at hrun
  split at hrun
  · obtain ⟨rfl, -⟩ := Prod.mk.inj (Option.some.inj hrun)
    rw [List.length_take]
    omega
  · cases hrun

theorem guarantees_sized : Guarantees readSized fun p => p.2.length < 2 ^ 31 :=
  (guarantees_true _).bind fun _ _ => (guarantees_array (intCast_lt _)).bind fun _ h =>
    guarantees_pure h

end DataInput

end CloudHands.Japi
