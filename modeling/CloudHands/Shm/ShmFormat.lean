import CloudHands.Lib.Word
import CloudHands.Shm.BinFormat

/-!
# Records in shared-memory entries

`lib/shm/ch_shm_format.c` over `lib/shm/ch_shm_interface.c`: the writer fills one open
entry of the ring and commits it with its header, the reader takes a committed entry and
iterates over its records. The header of a record is written and read by the two
functions given to `ch_shm_format_create`.
-/

namespace CloudHands.Shm

open Lib

/-- The functions given to `ch_shm_format_create`, with the bytes they agree on. The
read function may report an error. -/
structure RecordFormat (η : Type) where
  recordHeaderSize : ℕ
  shmRecordWrite : BinFormat → η → BinFormat
  shmRecordRead : BinFormat → Option η × BinFormat
  encode : η → List UInt8
  writes : ∀ h, BinFormat.Writes (fun bf => shmRecordWrite bf h) (encode h)
  reads : ∀ h, BinFormat.Reads shmRecordRead (some h) (encode h)
  size : ∀ h, (encode h).length + 20 = recordHeaderSize

/-- `ch_shm_record_t` with the type-specific fields behind it. -/
structure ShmRecord (η : Type) where
  recordSize : UInt32
  header : η
  dataOffset : UInt32
  data : List UInt8
deriving DecidableEq

def fiMagic : UInt32 := 0xFFFA
def eiMagic : UInt32 := 0xFFFB
def majorVersion : UInt32 := 1
def minorVersion : UInt32 := 0
def shmEntryHeaderLen : ℕ := 20

/-- `ch_shm_header_t` and the bytes of the entries. -/
structure ShmInterface where
  entriesCount : ℕ
  entriesCountCur : ℕ
  writeEntryPos : ℕ
  readEntryPos : ℕ
  entries : ℕ → List UInt8

namespace ShmInterface

def empty (shm : ShmInterface) : Bool := shm.entriesCountCur = 0

def full (shm : ShmInterface) : Bool := shm.entriesCountCur = shm.entriesCount

/-- `ch_shm_entry_get`: the index of the entry to write or to read. -/
def entryGet (shm : ShmInterface) (isWrite : Bool) : Option ℕ :=
  if isWrite && shm.full then none
  else if !isWrite && shm.empty then none
  else some (if isWrite then shm.writeEntryPos else shm.readEntryPos)

def entryCommit (shm : ShmInterface) (isWrite : Bool) : ShmInterface :=
  if isWrite then
    { shm with
      writeEntryPos := (shm.writeEntryPos + 1) % shm.entriesCount
      entriesCountCur := Word.add 64 shm.entriesCountCur 1 }
  else
    { shm with
      readEntryPos := (shm.readEntryPos + 1) % shm.entriesCount
      entriesCountCur := Word.sub 64 shm.entriesCountCur 1 }

/-- The bytes behind a cursor of entry `index` after writes through it. -/
def store (shm : ShmInterface) (index : ℕ) (bf : BinFormat) : ShmInterface :=
  { shm with entries := Function.update shm.entries index bf.bytes }

end ShmInterface

/-- The writer's `ch_shm_format_t`; the fields of the current entry header mean something
only while `hasHeader` is set. -/
structure Writer where
  entrySize : UInt32
  hasHeader : Bool
  entryIndex : ℕ
  pos : ℕ
  entriesNumber : UInt32
  entriesSize : UInt32

def Writer.bfmt (w : Writer) (shm : ShmInterface) : BinFormat := ⟨shm.entries w.entryIndex, w.pos⟩

def isRecordSizeOver {η : Type} (w : Writer) (record : ShmRecord η) : Bool :=
  w.entrySize - UInt32.ofNat shmEntryHeaderLen < record.recordSize

def isNeedCreateEntryHeader {η : Type} (shm : ShmInterface) (w : Writer)
    (record : ShmRecord η) : Bool :=
  !w.hasHeader || (w.bfmt shm).full record.recordSize.toNat

def entryHeaderWrite (bf : BinFormat) (entriesNumber entriesSize : UInt32) : BinFormat :=
  ((((bf.uint32Write fiMagic).uint32Write majorVersion).uint32Write minorVersion).uint32Write
    entriesNumber).uint32Write entriesSize

def shmEntryHeaderCommit (shm : ShmInterface) (w : Writer) : ShmInterface :=
  (shm.store w.entryIndex
    (entryHeaderWrite (w.bfmt shm).reset w.entriesNumber w.entriesSize)).entryCommit true

def shmEntryHeaderCreate (shm : ShmInterface) (w : Writer) : Bool × ShmInterface × Writer :=
  let shm := if w.hasHeader then shmEntryHeaderCommit shm w else shm
  match shm.entryGet true with
  | none => (false, shm, { w with hasHeader := false })
  | some index =>
    (true, shm,
      { w with
        hasHeader := true
        entryIndex := index
        pos := ((BinFormat.init (shm.entries index)).skip shmEntryHeaderLen).pos
        entriesNumber := 0
        entriesSize := 0 })

section Records

variable {η : Type} (fmt : RecordFormat η)

/-- `ch_shm_record_len`, a 32-bit value. -/
def shmRecordLen (record : ShmRecord η) : UInt32 :=
  UInt32.ofNat (record.data.length + fmt.recordHeaderSize)

def recordBytesWrite (bf : BinFormat) (record : ShmRecord η) : BinFormat :=
  let bf := bf.uint32Write eiMagic
  let bf := bf.uint32Write (shmRecordLen fmt record)
  let bf := fmt.shmRecordWrite bf record.header
  let bf := bf.uint32Write record.dataOffset
  bf.bytesWrite record.data

def shmRecordWrite (shm : ShmInterface) (w : Writer) (record : ShmRecord η) :
    ShmInterface × Writer :=
  let bf := recordBytesWrite fmt (w.bfmt shm) record
  (shm.store w.entryIndex bf,
    { w with
      pos := bf.pos
      entriesNumber := w.entriesNumber + 1
      entriesSize := w.entriesSize + (UInt32.ofNat bf.pos - UInt32.ofNat w.pos) })

/-- `ch_shm_format_put`: 0 on success, -1 when the ring is full, -2 for a record that no
entry can hold. -/
def shmFormatPut (shm : ShmInterface) (w : Writer) (record : ShmRecord η) :
    ℤ × ShmInterface × Writer :=
  if isRecordSizeOver w record then (-2, shm, w)
  else if isNeedCreateEntryHeader shm w record then
    match shmEntryHeaderCreate shm w with
    | (false, shm, w) => (-1, shm, w)
    | (true, shm, w) => (0, shmRecordWrite fmt shm w record)
  else (0, shmRecordWrite fmt shm w record)

def canBeenFlush (w : Writer) : Bool := w.hasHeader && w.pos != 0

def shmFormatFlush (shm : ShmInterface) (w : Writer) : ShmInterface × Writer :=
  if canBeenFlush w then (shmEntryHeaderCreate shm w).2 else (shm, w)

/-- The reader's `ch_shm_format_t` and its iterator; `header` says that the iterator's
header pointer is not null. -/
structure Reader where
  header : Bool
  entryIndex : ℕ
  pos : ℕ
  entriesNumber : UInt32
  entriesCount : UInt32

def shmEntryHeaderRead (bf : BinFormat) : Option UInt32 × BinFormat :=
  let (magic, bf) := bf.uint32Read
  if magic ≠ fiMagic then (none, bf)
  else
    let (_major, bf) := bf.uint32Read
    let (_minor, bf) := bf.uint32Read
    let (entriesNumber, bf) := bf.uint32Read
    let (_entriesSize, bf) := bf.uint32Read
    (some entriesNumber, bf)

/-- `ch_shm_entry_iterator_prefare`; the result is null iff `header` is not set in the
new state. -/
def iteratorPrefare (shm : ShmInterface) (r : Reader) : Reader :=
  match shm.entryGet false with
  | none => { r with header := false, entriesCount := 0 }
  | some index =>
    match shmEntryHeaderRead (BinFormat.init (shm.entries index)) with
    | (none, bf) =>
        { r with header := false, entriesCount := 0, entryIndex := index, pos := bf.pos }
    | (some entriesNumber, bf) => ⟨true, index, bf.pos, entriesNumber, 0⟩

def Reader.hasNext (r : Reader) : Bool := r.header && r.entriesCount < r.entriesNumber

/-- What `_record_read` gives: a record, or an error that may take the header away. -/
inductive RecordRead (η : Type)
  | ok (record : ShmRecord η)
  | badMagic
  | badRecord

def recordRead (bf : BinFormat) : RecordRead η × BinFormat :=
  let (magic, bf) := bf.uint32Read
  if magic ≠ eiMagic then (.badMagic, bf)
  else
    let (recordSize, bf) := bf.uint32Read
    match fmt.shmRecordRead bf with
    | (none, bf) => (.badRecord, bf)
    | (some header, bf) =>
      let (dataOffset, bf) := bf.uint32Read
      let (data, bf) := bf.bytesRead
      (.ok ⟨recordSize, header, dataOffset, data⟩, bf)

/-- The iterator's `next`. -/
def recordNext (shm : ShmInterface) (r : Reader) : Option (ShmRecord η) × Reader :=
  if r.hasNext then
    match recordRead fmt ⟨shm.entries r.entryIndex, r.pos⟩ with
    | (.ok record, bf) =>
      (some record, { r with pos := bf.pos, entriesCount := r.entriesCount + 1 })
    | (.badMagic, bf) => (none, { r with pos := bf.pos, header := false })
    | (.badRecord, bf) => (none, { r with pos := bf.pos })
  else (none, r)

def iteratorCommit (shm : ShmInterface) (r : Reader) : ShmInterface × Reader :=
  if r.header then (shm.entryCommit false, { r with header := false, entriesCount := 0 })
  else (shm, r)

end Records

end CloudHands.Shm
