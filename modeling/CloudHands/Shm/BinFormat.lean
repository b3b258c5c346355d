import CloudHands.Lib.BigEndian

/-!
# The binary format cursor

`ch_bin_format_t` of `lib/shm/ch_bin_format.h`: a cursor in a range of bytes. A write
that does not fit leaves everything unchanged, a read that does not fit gives zero.
-/

namespace CloudHands.Shm

open Lib

/-- The range `[start, end)` and the offset of `pos` in it. -/
structure BinFormat where
  bytes : List UInt8
  pos : ℕ

namespace BinFormat

def full (bf : BinFormat) (size : ℕ) : Bool := bf.bytes.length < bf.pos + size

def init (bytes : List UInt8) : BinFormat := ⟨bytes, 0⟩

def reset (bf : BinFormat) : BinFormat := { bf with pos := 0 }

def skip (bf : BinFormat) (size : ℕ) : BinFormat :=
  if bf.full size then { bf with pos := bf.bytes.length } else { bf with pos := bf.pos + size }

def doWrite (bf : BinFormat) (bs : List UInt8) : BinFormat :=
  ⟨overwrite bf.bytes bf.pos bs, bf.pos + bs.length⟩

/-- The family `ch_bf_uint8_write` to `ch_bf_uint64_write`, by the width in bytes. -/
def valueWrite (width : ℕ) (bf : BinFormat) (v : ℕ) : BinFormat :=
  if bf.full width then bf else bf.doWrite (bigEndian width v)

def uint8Write (bf : BinFormat) (v : UInt8) : BinFormat := valueWrite 1 bf v.toNat
def uint16Write (bf : BinFormat) (v : UInt16) : BinFormat := valueWrite 2 bf v.toNat
def uint32Write (bf : BinFormat) (v : UInt32) : BinFormat := valueWrite 4 bf v.toNat
def uint64Write (bf : BinFormat) (v : UInt64) : BinFormat := valueWrite 8 bf v.toNat
def sizeWrite (bf : BinFormat) (v : ℕ) : BinFormat := valueWrite 8 bf v

def bytesWrite (bf : BinFormat) (bs : List UInt8) : BinFormat :=
  if bf.full (bs.length + 8) then bf else (bf.sizeWrite bs.length).doWrite bs

/-- The family `ch_bf_uint8_read` to `ch_bf_uint64_read`, by the width in bytes. -/
def valueRead (width : ℕ) (bf : BinFormat) : ℕ × BinFormat :=
  if bf.full width then (0, bf)
  else (ofBigEndian ((bf.bytes.drop bf.pos).take width), { bf with pos := bf.pos + width })

def uint8Read (bf : BinFormat) : UInt8 × BinFormat :=
  ((bf.valueRead 1).1.toUInt8, (bf.valueRead 1).2)
def uint16Read (bf : BinFormat) : UInt16 × BinFormat :=
  ((bf.valueRead 2).1.toUInt16, (bf.valueRead 2).2)
def uint32Read (bf : BinFormat) : UInt32 × BinFormat :=
  ((bf.valueRead 4).1.toUInt32, (bf.valueRead 4).2)
def uint64Read (bf : BinFormat) : UInt64 × BinFormat :=
  ((bf.valueRead 8).1.toUInt64, (bf.valueRead 8).2)
def sizeRead (bf : BinFormat) : ℕ × BinFormat := bf.valueRead 8

def bytesRead (bf : BinFormat) : List UInt8 × BinFormat :=
  if bf.full 8 then ([], bf)
  else
    let (len, bf) := bf.sizeRead
    ((bf.bytes.drop bf.pos).take len, { bf with pos := bf.pos + len })

/-- The bytes that have been written, of the size that `ch_bf_content_size` gives. -/
def content (bf : BinFormat) : List UInt8 := bf.bytes.take bf.pos

/-- There is room for `n` more bytes. -/
def Fits (bf : BinFormat) (n : ℕ) : Prop := bf.pos + n ≤ bf.bytes.length

theorem Fits.full {bf : BinFormat} {n : ℕ} (h : bf.Fits n) : bf.full n = false :=
  decide_eq_false (Nat.not_lt.2 h)

theorem Fits.left {bf : BinFormat} {m n : ℕ} (h : bf.Fits (m + n)) : bf.Fits m := by
  unfold Fits at *
  omega

theorem Fits.doWrite {bf : BinFormat} {bs : List UInt8} {n : ℕ} (h : bf.Fits (bs.length + n)) :
    (bf.doWrite bs).Fits n := by
  unfold Fits at *
  rw [BinFormat.doWrite, length_overwrite (by omega)]
  dsimp only
  omega

theorem doWrite_doWrite {bf : BinFormat} {bs cs : List UInt8} (h : bf.Fits bs.length) :
    (bf.doWrite bs).doWrite cs = bf.doWrite (bs ++ cs) := by
  simp only [doWrite, overwrite_overwrite h, List.length_append, Nat.add_assoc]

theorem content_doWrite_init (buffer bs : List UInt8) :
    ((BinFormat.init buffer).doWrite bs).content = bs := by
  simp [content, doWrite, BinFormat.init, overwrite]

/-- `write` puts exactly `bs` behind the cursor wherever there is room for it. -/
def Writes (write : BinFormat → BinFormat) (bs : List UInt8) : Prop :=
  ∀ bf : BinFormat, bf.Fits bs.length → write bf = bf.doWrite bs

theorem Writes.comp {f g : BinFormat → BinFormat} {bs cs : List UInt8} (hf : Writes f bs)
    (hg : Writes g cs) : Writes (fun bf => g (f bf)) (bs ++ cs) := by
  intro bf h
  rw [List.length_append] at h
  dsimp only
  rw [hf bf h.left, hg _ h.doWrite, doWrite_doWrite h.left]

theorem writes_value (width v : ℕ) :
    Writes (fun bf => bf.valueWrite width v) (bigEndian width v) := by
  intro bf h
  rw [length_bigEndian] at h
  simp [valueWrite, h.full]

theorem writes_bytes (bs : List UInt8) :
    Writes (fun bf => bf.bytesWrite bs) (bigEndian 8 bs.length ++ bs) := by
  intro bf h
  rw [List.length_append, length_bigEndian] at h
  have hlen : bf.full (bs.length + 8) = false := by
    rw [Nat.add_comm]
    exact h.full
  have hsize : Writes (fun bf => bf.sizeWrite bs.length) (bigEndian 8 bs.length) :=
    writes_value 8 bs.length
  simp only [bytesWrite, hlen]
  exact (hsize.comp (fun bf _ => rfl : Writes (fun bf => bf.doWrite bs) bs)) bf (by simpa using h)

/-- The bytes from the cursor on begin with `bs`. -/
def Ahead (bf : BinFormat) (bs : List UInt8) : Prop := bs <+: bf.bytes.drop bf.pos

def advance (bf : BinFormat) (n : ℕ) : BinFormat := { bf with pos := bf.pos + n }

@[simp] theorem advance_advance (bf : BinFormat) (m n : ℕ) :
    (bf.advance m).advance n = bf.advance (m + n) := by
  simp [advance, Nat.add_assoc]

theorem Ahead.fits {bf : BinFormat} {bs : List UInt8} (h : bf.Ahead bs) (hpos : 0 < bs.length) :
    bf.Fits bs.length := by
  have hle := h.length_le
  rw [List.length_drop] at hle
  unfold Fits
  omega

theorem Ahead.left {bf : BinFormat} {bs cs : List UInt8} (h : bf.Ahead (bs ++ cs)) :
    bf.Ahead bs := (prefix_drop_of_append h).1

theorem Ahead.right {bf : BinFormat} {bs cs : List UInt8} (h : bf.Ahead (bs ++ cs)) :
    (bf.advance bs.length).Ahead cs := (prefix_drop_of_append h).2

theorem Ahead.take {bf : BinFormat} {bs : List UInt8} (h : bf.Ahead bs) :
    (bf.bytes.drop bf.pos).take bs.length = bs := (List.prefix_iff_eq_take.1 h).symm

/-- Where `bs` stands behind the cursor, `read` gives `a` and moves over it. -/
def Reads {α : Type} (read : BinFormat → α × BinFormat) (a : α) (bs : List UInt8) : Prop :=
  ∀ bf : BinFormat, bf.Ahead bs → read bf = (a, bf.advance bs.length)

theorem Reads.map {α β : Type} {f : BinFormat → α × BinFormat} {a : α} {bs : List UInt8}
    (hf : Reads f a bs) (k : α → β) : Reads (fun bf => (k (f bf).1, (f bf).2)) (k a) bs := by
  intro bf h
  dsimp only
  rw [hf bf h]

theorem reads_value (width : ℕ) {v : ℕ} (hw : 0 < width) (hv : v < 256 ^ width) :
    Reads (valueRead width) v (bigEndian width v) := by
  intro bf h
  have htake := h.take
  rw [length_bigEndian] at htake ⊢
  have hfits : bf.Fits width := by simpa using h.fits (by simpa using hw)
  rw [valueRead, hfits.full, htake, ofBigEndian_bigEndian_of_lt hv]
  rfl

theorem reads_uint8 (v : UInt8) : Reads uint8Read v (bigEndian 1 v.toNat) := by
  have hread := (reads_value 1 (by omega) v.toNat_lt).map Nat.toUInt8
  rw [show v.toNat.toUInt8 = v by simp] at hread
  exact hread

theorem reads_uint16 (v : UInt16) : Reads uint16Read v (bigEndian 2 v.toNat) := by
  have hread := (reads_value 2 (by omega) v.toNat_lt).map Nat.toUInt16
  rw [show v.toNat.toUInt16 = v by simp] at hread
  exact hread

theorem reads_uint32 (v : UInt32) : Reads uint32Read v (bigEndian 4 v.toNat) := by
  have hread := (reads_value 4 (by omega) v.toNat_lt).map Nat.toUInt32
  rw [show v.toNat.toUInt32 = v by simp] at hread
  exact hread

theorem reads_uint64 (v : UInt64) : Reads uint64Read v (bigEndian 8 v.toNat) := by
  have hread := (reads_value 8 (by omega) v.toNat_lt).map Nat.toUInt64
  rw [show v.toNat.toUInt64 = v by simp] at hread
  exact hread

theorem reads_bytes {bs : List UInt8} (hlen : bs.length < 256 ^ 8) :
    Reads bytesRead bs (bigEndian 8 bs.length ++ bs) := by
  intro bf h
  have hfits : bf.Fits 8 := by simpa using h.left.fits (by simp)
  have hdata : (bf.advance 8).Ahead bs := by simpa using h.right
  have hsize : bf.sizeRead = (bs.length, bf.advance 8) := by
    simpa [sizeRead] using reads_value 8 (by omega) hlen bf h.left
  rw [bytesRead, hfits.full, hsize]
  simp only [Bool.false_eq_true, if_false, hdata.take, List.length_append, length_bigEndian]
  rw [← advance_advance]
  rfl

end BinFormat

end CloudHands.Shm
