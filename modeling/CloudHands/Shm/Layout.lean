import CloudHands.Lib.Ring
import CloudHands.Shm.ShmFormat

/-!
# The bytes of an entry

What the writer puts into an entry and what the reader makes of it: records and entry
headers are read back as they were written.
-/

namespace CloudHands.Shm

open Lib BinFormat

variable {η : Type} (fmt : RecordFormat η)

/-- The `record_size` is the one the record's `put` function computes, and it does not
exceed its 32 bits. -/
structure ShmRecord.WellFormed (record : ShmRecord η) : Prop where
  size_lt : fmt.recordHeaderSize + record.data.length < 2 ^ 32
  recordSize : record.recordSize.toNat = fmt.recordHeaderSize + record.data.length

def recordBytes (record : ShmRecord η) : List UInt8 :=
  bigEndian 4 eiMagic.toNat ++ (bigEndian 4 (shmRecordLen fmt record).toNat ++
    (fmt.encode record.header ++ (bigEndian 4 record.dataOffset.toNat ++
      (bigEndian 8 record.data.length ++ record.data))))

def recordsBytes (records : List (ShmRecord η)) : List UInt8 := records.flatMap (recordBytes fmt)

def headerBytes (entriesNumber entriesSize : UInt32) : List UInt8 :=
  bigEndian 4 fiMagic.toNat ++ (bigEndian 4 majorVersion.toNat ++
    (bigEndian 4 minorVersion.toNat ++ (bigEndian 4 entriesNumber.toNat ++
      bigEndian 4 entriesSize.toNat)))

@[simp] theorem length_headerBytes (entriesNumber entriesSize : UInt32) :
    (headerBytes entriesNumber entriesSize).length = shmEntryHeaderLen := by
  simp [headerBytes, shmEntryHeaderLen]

theorem length_recordBytes (record : ShmRecord η) :
    (recordBytes fmt record).length = fmt.recordHeaderSize + record.data.length := by
  simp only [recordBytes, List.length_append, length_bigEndian, ← fmt.size record.header]
  omega

theorem ShmRecord.WellFormed.length {record : ShmRecord η} (h : record.WellFormed fmt) :
    (recordBytes fmt record).length = record.recordSize.toNat := by
  rw [length_recordBytes, h.recordSize]

theorem ShmRecord.WellFormed.recordLen {record : ShmRecord η} (h : record.WellFormed fmt) :
    shmRecordLen fmt record = record.recordSize := by
  apply UInt32.toNat_inj.1
  have hlt := h.size_lt
  rw [shmRecordLen, UInt32.toNat_ofNat', h.recordSize, Nat.mod_eq_of_lt (by omega), Nat.add_comm]

@[simp] theorem recordsBytes_nil : recordsBytes fmt [] = [] := rfl

theorem recordsBytes_append (rs ss : List (ShmRecord η)) :
    recordsBytes fmt (rs ++ ss) = recordsBytes fmt rs ++ recordsBytes fmt ss := by
  simp [recordsBytes]

@[simp] theorem recordsBytes_singleton (record : ShmRecord η) :
    recordsBytes fmt [record] = recordBytes fmt record := by
  simp [recordsBytes]

theorem length_le_recordsBytes (records : List (ShmRecord η)) :
    records.length ≤ (recordsBytes fmt records).length := by
  induction records with
  | nil => simp
  | cons record records ih =>
    have hrecord : 1 ≤ (recordBytes fmt record).length := by
      have hsize := fmt.size record.header
      rw [length_recordBytes]
      omega
    simp only [recordsBytes, List.flatMap_cons, List.length_append, List.length_cons] at ih ⊢
    omega

theorem writes_record (record : ShmRecord η) :
    Writes (fun bf => recordBytesWrite fmt bf record) (recordBytes fmt record) := by
  have hbody := (fmt.writes record.header).comp
    ((writes_value 4 record.dataOffset.toNat).comp (writes_bytes record.data))
  have hall := (writes_value 4 eiMagic.toNat).comp
    ((writes_value 4 (shmRecordLen fmt record).toNat).comp hbody)
  simpa only [recordBytesWrite, recordBytes, uint32Write] using hall

theorem reads_record {record : ShmRecord η} (h : record.WellFormed fmt) :
    Reads (recordRead fmt) (.ok record) (recordBytes fmt record) := by
  intro bf h₁
  have hlen : record.data.length < 256 ^ 8 := by
    have hlt := h.size_lt
    omega
  rw [recordBytes] at h₁ ⊢
  have h₂ := h₁.right
  have h₃ := h₂.right
  have h₄ := h₃.right
  have h₅ := h₄.right
  simp only [recordRead, reads_uint32 _ _ h₁.left, reads_uint32 _ _ h₂.left,
    fmt.reads _ _ h₃.left, reads_uint32 _ _ h₄.left, reads_bytes hlen _ h₅]
  simp only [ne_eq, not_true_eq_false, if_false, h.recordLen, advance_advance, List.length_append,
    Nat.add_assoc]

theorem writes_header (entriesNumber entriesSize : UInt32) :
    Writes (fun bf => entryHeaderWrite bf entriesNumber entriesSize)
      (headerBytes entriesNumber entriesSize) := by
  have hcounts := (writes_value 4 entriesNumber.toNat).comp (writes_value 4 entriesSize.toNat)
  have hall := (writes_value 4 fiMagic.toNat).comp ((writes_value 4 majorVersion.toNat).comp
    ((writes_value 4 minorVersion.toNat).comp hcounts))
  simpa only [entryHeaderWrite, headerBytes, uint32Write] using hall

theorem reads_header (entriesNumber entriesSize : UInt32) :
    Reads shmEntryHeaderRead (some entriesNumber) (headerBytes entriesNumber entriesSize) := by
  intro bf h₁
  rw [headerBytes] at h₁ ⊢
  have h₂ := h₁.right
  have h₃ := h₂.right
  have h₄ := h₃.right
  have h₅ := h₄.right
  simp only [shmEntryHeaderRead, reads_uint32 _ _ h₁.left, reads_uint32 _ _ h₂.left,
    reads_uint32 _ _ h₃.left, reads_uint32 _ _ h₄.left, reads_uint32 _ _ h₅]
  simp only [ne_eq, not_true_eq_false, if_false, advance_advance, List.length_append,
    Nat.add_assoc]

structure EntryHolds (bytes : List UInt8) (records : List (ShmRecord η)) : Prop where
  number_lt : records.length < 2 ^ 32
  holds : ∃ entriesSize, headerBytes (UInt32.ofNat records.length) entriesSize ++
    recordsBytes fmt records <+: bytes
  wellFormed : ∀ record ∈ records, record.WellFormed fmt

structure OpenEntry (bytes : List UInt8) (w : Writer) (records : List (ShmRecord η)) : Prop where
  number : w.entriesNumber.toNat = records.length
  pos : w.pos = shmEntryHeaderLen + (recordsBytes fmt records).length
  pos_le : w.pos ≤ bytes.length
  length_le : bytes.length ≤ 2 ^ 32
  holds : recordsBytes fmt records <+: bytes.drop shmEntryHeaderLen
  wellFormed : ∀ record ∈ records, record.WellFormed fmt

variable {fmt}

theorem OpenEntry.number_lt {bytes : List UInt8} {w : Writer} {records : List (ShmRecord η)}
    (h : OpenEntry fmt bytes w records) : records.length < 2 ^ 32 := by
  have hrecords := length_le_recordsBytes fmt records
  have hpos := h.pos
  have hle := h.pos_le
  have hlen := h.length_le
  simp only [shmEntryHeaderLen] at hpos
  omega

theorem OpenEntry.commit {bytes : List UInt8} {w : Writer} {records : List (ShmRecord η)}
    (h : OpenEntry fmt bytes w records) (pos : ℕ) :
    EntryHolds fmt
      (entryHeaderWrite (reset ⟨bytes, pos⟩) w.entriesNumber w.entriesSize).bytes records ∧
    (entryHeaderWrite (reset ⟨bytes, pos⟩) w.entriesNumber w.entriesSize).bytes.length =
      bytes.length := by
  have hroom : shmEntryHeaderLen ≤ bytes.length := by
    have hpos := h.pos
    have hle := h.pos_le
    omega
  have hfits : (reset ⟨bytes, pos⟩).Fits (headerBytes w.entriesNumber w.entriesSize).length := by
    simpa [Fits, reset] using hroom
  have hwrite := writes_header w.entriesNumber w.entriesSize _ hfits
  dsimp only at hwrite
  have hnumber : UInt32.ofNat records.length = w.entriesNumber := by
    rw [← h.number, UInt32.ofNat_toNat]
  rw [hwrite]
  refine ⟨⟨h.number_lt, ⟨w.entriesSize, ?_⟩, h.wellFormed⟩, length_overwrite hfits⟩
  have hbytes : (doWrite (reset ⟨bytes, pos⟩) (headerBytes w.entriesNumber w.entriesSize)).bytes =
      headerBytes w.entriesNumber w.entriesSize ++ bytes.drop shmEntryHeaderLen := by
    simp [doWrite, reset, overwrite]
  rw [hbytes, hnumber]
  exact (List.prefix_append_right_inj _).2 h.holds

theorem OpenEntry.write {bytes : List UInt8} {w : Writer} {records : List (ShmRecord η)}
    {record : ShmRecord η} (h : OpenEntry fmt bytes w records) (hwf : record.WellFormed fmt)
    (hfits : w.pos + record.recordSize.toNat ≤ bytes.length) :
    OpenEntry fmt (recordBytesWrite fmt ⟨bytes, w.pos⟩ record).bytes
      { w with
        pos := (recordBytesWrite fmt ⟨bytes, w.pos⟩ record).pos
        entriesNumber := w.entriesNumber + 1
        entriesSize :=
          w.entriesSize + (UInt32.ofNat (recordBytesWrite fmt ⟨bytes, w.pos⟩ record).pos -
          UInt32.ofNat w.pos) }
      (records ++ [record]) ∧
    (recordBytesWrite fmt ⟨bytes, w.pos⟩ record).bytes.length = bytes.length := by
  rw [← hwf.length] at hfits
  have hwrite := writes_record fmt record ⟨bytes, w.pos⟩ hfits
  have hlength : (overwrite bytes w.pos (recordBytes fmt record)).length = bytes.length :=
    length_overwrite hfits
  dsimp only at hwrite
  rw [hwrite]
  refine ⟨⟨?_, ?_, ?_, ?_, ?_, ?_⟩, hlength⟩
  · have hlt : records.length + 1 < 2 ^ 32 := by
      have hrecords := length_le_recordsBytes fmt records
      have hpos := h.pos
      have hle := h.pos_le
      have hlen := h.length_le
      simp only [shmEntryHeaderLen] at hpos
      omega
    have hone : (1 : UInt32).toNat = 1 := rfl
    simp only [UInt32.toNat_add, h.number, List.length_append, List.length_singleton, hone]
    exact Nat.mod_eq_of_lt hlt
  · simp only [doWrite, h.pos, recordsBytes_append, recordsBytes_singleton, List.length_append,
      Nat.add_assoc]
  · simpa only [doWrite, hlength] using hfits
  · simpa only [doWrite, hlength] using h.length_le
  · rw [recordsBytes_append, recordsBytes_singleton]
    exact prefix_overwrite h.holds h.pos hfits
  · intro r hr
    rcases List.mem_append.1 hr with hr | hr
    · exact h.wellFormed r hr
    · rwa [List.mem_singleton.1 hr]

theorem EntryHolds.read {bytes : List UInt8} {records rest : List (ShmRecord η)}
    {done : List (ShmRecord η)} {record : ShmRecord η} (h : EntryHolds fmt bytes records)
    (hrecords : records = done ++ record :: rest) :
    recordRead fmt ⟨bytes, shmEntryHeaderLen + (recordsBytes fmt done).length⟩ =
      (.ok record, ⟨bytes, shmEntryHeaderLen + (recordsBytes fmt (done ++ [record])).length⟩) := by
  obtain ⟨entriesSize, hbytes⟩ := h.holds
  have hcons : recordsBytes fmt (record :: rest) =
      recordBytes fmt record ++ recordsBytes fmt rest := by simp [recordsBytes]
  have hbody : (init bytes).Ahead (headerBytes (UInt32.ofNat records.length) entriesSize ++
      (recordsBytes fmt done ++ (recordBytes fmt record ++ recordsBytes fmt rest))) := by
    rw [← hcons, ← recordsBytes_append, ← hrecords]
    simpa [Ahead, init] using hbytes
  have hahead : BinFormat.Ahead ⟨bytes, shmEntryHeaderLen + (recordsBytes fmt done).length⟩
      (recordBytes fmt record) := by
    simpa [advance, init] using hbody.right.right.left
  rw [reads_record fmt (h.wellFormed record (by simp [hrecords])) _ hahead, recordsBytes_append]
  simp [advance, Nat.add_assoc]

theorem EntryHolds.readHeader {bytes : List UInt8} {records : List (ShmRecord η)}
    (h : EntryHolds fmt bytes records) :
    shmEntryHeaderRead (init bytes) =
      (some (UInt32.ofNat records.length), ⟨bytes, shmEntryHeaderLen⟩) := by
  obtain ⟨entriesSize, hbytes⟩ := h.holds
  have hahead : (init bytes).Ahead (headerBytes (UInt32.ofNat records.length) entriesSize) :=
    Ahead.left (by simpa [Ahead, init] using hbytes)
  rw [reads_header _ _ _ hahead]
  simp [advance, init]

end CloudHands.Shm
