import CloudHands.Lib.Run
import CloudHands.Shm.Layout
import CloudHands.Shm.Record

/-!
# Whole records in every entry

What the writer of the ring puts into its entries, for entries of any size: the records of the open
entry and the entries as they were committed. Sizes are kept in 32 bits, the size of a record as
well as the one that an entry has left, and a record that is taken for smaller than it is or for
one that fits an entry loses its data.
-/

namespace CloudHands.Shm

open Lib BinFormat

/-- The record that the TCP handlers hand to `ch_shm_format_put`. -/
def tcpRecord (rcd : TcpRecord) (dataOffset : UInt32) (data : List UInt8) : ShmRecord TcpRecord :=
  ⟨UInt32.ofNat (tcpRecordHeaderSize + data.length), rcd, dataOffset, data⟩

variable {η : Type} (fmt : RecordFormat η)

def ShmRecord.fullSize (record : ShmRecord η) : ℕ := fmt.recordHeaderSize + record.data.length

/-- The writer, the records that it put into the open entry, and each entry that it committed, as
it was then, with the records that it had put into it. -/
structure RecordWriter (η : Type) where
  shm : ShmInterface
  writer : Writer
  opened : List (ShmRecord η) := []
  committed : List (List UInt8 × List (ShmRecord η)) := []

inductive WriterOp (η : Type)
  | put (record : ShmRecord η)
  | flush
  | consume

namespace RecordWriter

def init (shm : ShmInterface) (entrySize : UInt32) : RecordWriter η :=
  { shm := shm, writer := ⟨entrySize, false, 0, 0, 0, 0⟩ }

def sealed (w : RecordWriter η) : List (List UInt8 × List (ShmRecord η)) :=
  if w.writer.hasHeader then
    [((shmEntryHeaderCommit w.shm w.writer).entries w.writer.entryIndex, w.opened)]
  else []

def Leaves (w : RecordWriter η) (record : ShmRecord η) : Bool :=
  !isRecordSizeOver w.writer record && isNeedCreateEntryHeader w.shm w.writer record

/-- `consume` is the reader's commit of an entry. -/
def step (w : RecordWriter η) : WriterOp η → RecordWriter η
  | .put record =>
    let (rc, shm, writer) := shmFormatPut fmt w.shm w.writer record
    { shm := shm
      writer := writer
      opened := (if w.Leaves record then [] else w.opened) ++ if rc = 0 then [record] else []
      committed := w.committed ++ if w.Leaves record then w.sealed else [] }
  | .flush =>
    let (shm, writer) := shmFormatFlush w.shm w.writer
    if canBeenFlush w.writer then ⟨shm, writer, [], w.committed ++ w.sealed⟩
    else { w with shm := shm, writer := writer }
  | .consume => { w with shm := w.shm.entryCommit false }

end RecordWriter

def SizesExact (records : List (ShmRecord η)) : Prop :=
  ∀ record ∈ records, (recordBytes fmt record).length = record.recordSize.toNat

structure OpenWhole (bytes : List UInt8) (w : Writer) (records : List (ShmRecord η)) : Prop where
  number : w.entriesNumber.toNat = records.length
  size : w.entriesSize.toNat = (recordsBytes fmt records).length
  pos : w.pos = shmEntryHeaderLen + (recordsBytes fmt records).length
  pos_le : w.pos ≤ bytes.length
  holds : recordsBytes fmt records <+: bytes.drop shmEntryHeaderLen
  sizes : SizesExact fmt records

structure CommittedWhole (bytes : List UInt8) (records : List (ShmRecord η)) : Prop where
  number_lt : records.length < 2 ^ 32
  size_lt : (recordsBytes fmt records).length < 2 ^ 32
  holds : headerBytes (UInt32.ofNat records.length)
    (UInt32.ofNat (recordsBytes fmt records).length) ++ recordsBytes fmt records <+: bytes
  sizes : SizesExact fmt records

namespace RecordWriter

structure Whole (entryLen : ℕ) (w : RecordWriter η) : Prop where
  length : ∀ i, (w.shm.entries i).length = entryLen
  opened : w.writer.hasHeader = true →
    OpenWhole fmt (w.shm.entries w.writer.entryIndex) w.writer w.opened
  closed : w.writer.hasHeader = false → w.opened = []
  committed : ∀ entry ∈ w.committed, CommittedWhole fmt entry.1 entry.2

/-- A record that the checks let through has a size that fits in 32 bits, fits an empty entry, and
brings the size of the entry's records to no more than 32 bits hold. -/
def Sound (entryLen : ℕ) (w : RecordWriter η) : WriterOp η → Prop
  | .put record =>
    isRecordSizeOver w.writer record = false →
      record.fullSize fmt < 2 ^ 32 ∧ shmEntryHeaderLen + record.fullSize fmt ≤ entryLen ∧
      (isNeedCreateEntryHeader w.shm w.writer record = false →
        w.writer.pos + record.fullSize fmt < 2 ^ 32 + shmEntryHeaderLen)
  | _ => True

end RecordWriter

/-- The `record_size` is what the record's `put` function computes. -/
def WriterOp.Computed : WriterOp η → Prop
  | .put record => record.recordSize = UInt32.ofNat (record.fullSize fmt)
  | _ => True

instance (op : WriterOp η) : Decidable (op.Computed fmt) := by
  cases op <;> unfold WriterOp.Computed <;> infer_instance

instance (entryLen : ℕ) (w : RecordWriter η) (op : WriterOp η) :
    Decidable (w.Sound fmt entryLen op) := by
  cases op <;> unfold RecordWriter.Sound <;> infer_instance

theorem ShmInterface.entryCommit_entries (shm : ShmInterface) (isWrite : Bool) :
    (shm.entryCommit isWrite).entries = shm.entries := by
  rw [ShmInterface.entryCommit]
  split <;> rfl

variable {fmt} {shm : ShmInterface} {w : Writer} {bytes : List UInt8} {entryLen : ℕ}
  {records : List (ShmRecord η)} {record : ShmRecord η}

theorem toNat_sub_ofNat {pos n : ℕ} (hn : n < 2 ^ 32) :
    (UInt32.ofNat (pos + n) - UInt32.ofNat pos).toNat = n := by
  rw [UInt32.toNat_sub, UInt32.toNat_ofNat', UInt32.toNat_ofNat']
  omega

theorem OpenWhole.write (h : OpenWhole fmt bytes w records)
    (hcomputed : record.recordSize = UInt32.ofNat (record.fullSize fmt))
    (hsize : record.fullSize fmt < 2 ^ 32) (hfits : w.pos + record.fullSize fmt ≤ bytes.length)
    (htotal : w.pos + record.fullSize fmt < 2 ^ 32 + shmEntryHeaderLen) :
    OpenWhole fmt (recordBytesWrite fmt ⟨bytes, w.pos⟩ record).bytes
      { w with
        pos := (recordBytesWrite fmt ⟨bytes, w.pos⟩ record).pos
        entriesNumber := w.entriesNumber + 1
        entriesSize :=
          w.entriesSize + (UInt32.ofNat (recordBytesWrite fmt ⟨bytes, w.pos⟩ record).pos -
          UInt32.ofNat w.pos) }
      (records ++ [record]) ∧
    (recordBytesWrite fmt ⟨bytes, w.pos⟩ record).bytes.length = bytes.length := by
  have hlen : (recordBytes fmt record).length = record.fullSize fmt := length_recordBytes fmt record
  have hroom : w.pos + (recordBytes fmt record).length ≤ bytes.length := by rwa [hlen]
  have hwrite : recordBytesWrite fmt ⟨bytes, w.pos⟩ record =
      ⟨overwrite bytes w.pos (recordBytes fmt record), w.pos + record.fullSize fmt⟩ := by
    rw [← hlen]
    exact writes_record fmt record ⟨bytes, w.pos⟩ hroom
  have hbytes : (recordsBytes fmt (records ++ [record])).length =
      (recordsBytes fmt records).length + record.fullSize fmt := by
    rw [recordsBytes_append, recordsBytes_singleton, List.length_append, hlen]
  have hpos := h.pos
  have hlength := length_overwrite hroom
  rw [hwrite]
  refine ⟨⟨?_, ?_, ?_, ?_, ?_, ?_⟩, hlength⟩
  · have hcount := length_le_recordsBytes fmt (records ++ [record])
    rw [List.length_append, List.length_singleton, hbytes] at hcount
    have hone : (1 : UInt32).toNat = 1 := rfl
    simp only [UInt32.toNat_add, h.number, hone, List.length_append, List.length_singleton]
    exact Nat.mod_eq_of_lt (by omega)
  · simp only [UInt32.toNat_add, h.size, toNat_sub_ofNat hsize, hbytes]
    exact Nat.mod_eq_of_lt (by omega)
  · simp only [hbytes, hpos]
    omega
  · simpa only [hlength] using hfits
  · rw [recordsBytes_append, recordsBytes_singleton]
    exact prefix_overwrite h.holds hpos hroom
  · intro r hr
    rcases List.mem_append.1 hr with hr | hr
    · exact h.sizes r hr
    · rw [List.mem_singleton.1 hr, hlen, hcomputed, UInt32.toNat_ofNat', Nat.mod_eq_of_lt hsize]

theorem OpenWhole.commit (h : OpenWhole fmt (shm.entries w.entryIndex) w records) :
    CommittedWhole fmt ((shmEntryHeaderCommit shm w).entries w.entryIndex) records ∧
      ∀ i, ((shmEntryHeaderCommit shm w).entries i).length = (shm.entries i).length := by
  have hpos := h.pos
  have hle := h.pos_le
  have hfits : (reset (w.bfmt shm)).Fits (headerBytes w.entriesNumber w.entriesSize).length := by
    rw [length_headerBytes, Fits, reset]
    simp only [Writer.bfmt]
    omega
  have hwrite : entryHeaderWrite (reset (w.bfmt shm)) w.entriesNumber w.entriesSize = _ :=
    writes_header w.entriesNumber w.entriesSize _ hfits
  have hentries : (shmEntryHeaderCommit shm w).entries = Function.update shm.entries w.entryIndex
      (overwrite (shm.entries w.entryIndex) 0 (headerBytes w.entriesNumber w.entriesSize)) := by
    simp only [shmEntryHeaderCommit, ShmInterface.store, ShmInterface.entryCommit, if_true]
    rw [hwrite]
    rfl
  have hnumber : UInt32.ofNat records.length = w.entriesNumber := by
    rw [← h.number, UInt32.ofNat_toNat]
  have hsize : UInt32.ofNat (recordsBytes fmt records).length = w.entriesSize := by
    rw [← h.size, UInt32.ofNat_toNat]
  refine ⟨⟨h.number ▸ w.entriesNumber.toNat_lt, h.size ▸ w.entriesSize.toNat_lt, ?_, h.sizes⟩, ?_⟩
  · have hbytes :
        overwrite (shm.entries w.entryIndex) 0 (headerBytes w.entriesNumber w.entriesSize) =
        headerBytes w.entriesNumber w.entriesSize ++
          (shm.entries w.entryIndex).drop shmEntryHeaderLen := by
      simp [overwrite]
    rw [hentries, Function.update_self, hbytes, hnumber, hsize]
    exact (List.prefix_append_right_inj _).2 h.holds
  · intro i
    rw [hentries]
    by_cases hi : i = w.entryIndex
    · rw [hi, Function.update_self]
      exact length_overwrite (by simpa [Fits, reset, Writer.bfmt] using hfits)
    · rw [Function.update_of_ne hi]

theorem headerCreate_whole (hlength : ∀ i, (shm.entries i).length = entryLen)
    (hopened : w.hasHeader = true → OpenWhole fmt (shm.entries w.entryIndex) w records)
    (hlen : shmEntryHeaderLen ≤ entryLen) :
    ∃ b shm' w', shmEntryHeaderCreate shm w = (b, shm', w') ∧ w'.hasHeader = b ∧
      (∀ i, (shm'.entries i).length = entryLen) ∧
      (b = true → OpenWhole fmt (shm'.entries w'.entryIndex) w' []) := by
  obtain ⟨shm₁, hshm₁, hlength₁⟩ : ∃ shm₁,
      (if w.hasHeader then shmEntryHeaderCommit shm w else shm) = shm₁ ∧
      ∀ i, (shm₁.entries i).length = entryLen := by
    cases hheader : w.hasHeader with
    | false => exact ⟨shm, rfl, hlength⟩
    | true => exact ⟨_, rfl, fun i => ((hopened hheader).commit.2 i).trans (hlength i)⟩
  rw [shmEntryHeaderCreate, hshm₁]
  cases hget : shm₁.entryGet true with
  | none => exact ⟨_, _, _, rfl, rfl, hlength₁, fun hb => by cases hb⟩
  | some index =>
    have hfits : (BinFormat.init (shm₁.entries index)).Fits shmEntryHeaderLen := by
      rw [Fits, BinFormat.init, hlength₁, Nat.zero_add]
      exact hlen
    have hpos : ((BinFormat.init (shm₁.entries index)).skip shmEntryHeaderLen).pos =
        shmEntryHeaderLen := by
      rw [skip, hfits.full]
      exact Nat.zero_add _
    refine ⟨_, _, _, rfl, rfl, hlength₁, fun _ => ⟨rfl, rfl, ?_, ?_, List.nil_prefix, ?_⟩⟩
    · simpa using hpos
    · simpa only [hpos, hlength₁] using hlen
    · exact fun record hrecord => absurd hrecord List.not_mem_nil

namespace RecordWriter

variable {v : RecordWriter η}

theorem Whole.sealed (h : v.Whole fmt entryLen) :
    ∀ entry ∈ v.sealed, CommittedWhole fmt entry.1 entry.2 := by
  intro entry hentry
  rw [RecordWriter.sealed] at hentry
  cases hheader : v.writer.hasHeader with
  | false => simp [hheader] at hentry
  | true =>
    rw [hheader, if_pos rfl, List.mem_singleton] at hentry
    rw [hentry]
    exact (h.opened hheader).commit.1

theorem Whole.committed_append (h : v.Whole fmt entryLen) :
    ∀ entry ∈ v.committed ++ v.sealed, CommittedWhole fmt entry.1 entry.2 := fun entry hentry =>
  (List.mem_append.1 hentry).elim (h.committed entry) (h.sealed entry)

theorem recordWrite_whole (hlength : ∀ i, (shm.entries i).length = entryLen)
    (hopened : OpenWhole fmt (shm.entries w.entryIndex) w records)
    (hcomputed : record.recordSize = UInt32.ofNat (record.fullSize fmt))
    (hsize : record.fullSize fmt < 2 ^ 32) (hfits : w.pos + record.fullSize fmt ≤ entryLen)
    (htotal : w.pos + record.fullSize fmt < 2 ^ 32 + shmEntryHeaderLen) :
    (∀ i, ((shmRecordWrite fmt shm w record).1.entries i).length = entryLen) ∧
      OpenWhole fmt ((shmRecordWrite fmt shm w record).1.entries w.entryIndex)
        (shmRecordWrite fmt shm w record).2 (records ++ [record]) := by
  rw [← hlength w.entryIndex] at hfits
  obtain ⟨hwritten, hlen⟩ := hopened.write hcomputed hsize hfits htotal
  simp only [shmRecordWrite, ShmInterface.store, Writer.bfmt]
  refine ⟨fun i => ?_, ?_⟩
  · by_cases hi : i = w.entryIndex
    · rw [hi, Function.update_self, hlen, hlength]
    · rw [Function.update_of_ne hi, hlength]
  · rw [Function.update_self]
    exact hwritten

theorem Whole.put (h : v.Whole fmt entryLen)
    (hcomputed : record.recordSize = UInt32.ofNat (record.fullSize fmt))
    (hsound : v.Sound fmt entryLen (.put record)) :
      (v.step fmt (.put record)).Whole fmt entryLen := by
  cases hover : isRecordSizeOver v.writer record with
  | true =>
    have hleaves : v.Leaves record = false := by rw [Leaves, hover]; rfl
    simpa only [step, shmFormatPut, hover, if_true, hleaves, Bool.false_eq_true, if_false,
      Int.reduceNeg, Int.reduceEq, List.append_nil] using h
  | false =>
    obtain ⟨hsize, hfits, htotal⟩ := hsound hover
    have hnat : record.recordSize.toNat = record.fullSize fmt := by
      rw [hcomputed, UInt32.toNat_ofNat', Nat.mod_eq_of_lt hsize]
    cases hneed : isNeedCreateEntryHeader v.shm v.writer record with
    | false =>
      have hleaves : v.Leaves record = false := by rw [Leaves, hneed, Bool.and_false]
      obtain ⟨hheader, hfull⟩ : v.writer.hasHeader = true ∧
          (v.writer.bfmt v.shm).full record.recordSize.toNat = false := by
        simpa [isNeedCreateEntryHeader] using hneed
      have hroom : v.writer.pos + record.fullSize fmt ≤ entryLen := by
        rw [← h.length v.writer.entryIndex, ← hnat]
        exact Nat.not_lt.1 (of_decide_eq_false hfull)
      obtain ⟨hlength, hopened⟩ :=
        recordWrite_whole h.length (h.opened hheader) hcomputed hsize hroom
        (htotal hneed)
      simp only [step, shmFormatPut, hover, hneed, hleaves, Bool.false_eq_true, if_false, if_true,
        List.append_nil]
      refine ⟨hlength, fun _ => hopened, fun hclosed => ?_, h.committed⟩
      exact absurd (hheader.symm.trans hclosed) (by simp)
    | true =>
      have hleaves : v.Leaves record = true := by rw [Leaves, hover, hneed]; rfl
      have hcommitted := h.committed_append
      obtain ⟨b, shm', w', hcreate, hb, hlength, hopened⟩ :=
        headerCreate_whole h.length h.opened (by omega)
      cases b with
      | false =>
        simp only [step, shmFormatPut, hover, hneed, hcreate, hleaves, Bool.false_eq_true, if_false,
          if_true, Int.reduceNeg, Int.reduceEq, List.append_nil]
        exact ⟨hlength, fun hheader => absurd (hheader.symm.trans hb) (by simp), fun _ => rfl,
          hcommitted⟩
      | true =>
        have hempty := hopened rfl
        have hpos : w'.pos = shmEntryHeaderLen := by simpa using hempty.pos
        obtain ⟨hlength', hopened'⟩ := recordWrite_whole hlength hempty hcomputed hsize
          (by rwa [hpos]) (by omega)
        simp only [step, shmFormatPut, hover, hneed, hcreate, hleaves, Bool.false_eq_true, if_false,
          if_true]
        exact ⟨hlength', fun _ => hopened', fun hclosed => absurd (hb.symm.trans hclosed) (by simp),
          hcommitted⟩

theorem Whole.flush (h : v.Whole fmt entryLen) : (v.step fmt .flush).Whole fmt entryLen := by
  cases hcan : canBeenFlush v.writer with
  | false => simpa only [step, shmFormatFlush, hcan, Bool.false_eq_true, if_false] using h
  | true =>
    have hheader : v.writer.hasHeader = true := (Bool.and_eq_true_iff.1 hcan).1
    have hopened := h.opened hheader
    have hlen : shmEntryHeaderLen ≤ entryLen := by
      have hpos := hopened.pos
      have hle := hopened.pos_le
      rw [h.length] at hle
      omega
    obtain ⟨b, shm', w', hcreate, hb, hlength, hopened'⟩ :=
      headerCreate_whole h.length h.opened hlen
    simp only [step, shmFormatFlush, hcan, if_true, hcreate]
    exact ⟨hlength, fun hheader' => hopened' (hb.symm.trans hheader'), fun _ => rfl,
      h.committed_append⟩

theorem Whole.entries (h : v.Whole fmt entryLen) (hentries : shm.entries = v.shm.entries) :
    Whole fmt entryLen { v with shm := shm } :=
  ⟨by simpa only [hentries] using h.length, by simpa only [hentries] using h.opened, h.closed,
    h.committed⟩

theorem Whole.step (h : v.Whole fmt entryLen) {op : WriterOp η}
    (hop : op.Computed fmt ∧ v.Sound fmt entryLen op) : (v.step fmt op).Whole fmt entryLen := by
  cases op with
  | put record => exact h.put hop.1 hop.2
  | flush => exact h.flush
  | consume =>
    rw [RecordWriter.step]
    exact h.entries (v.shm.entryCommit_entries false)

theorem sound_of_entrySize (hlength : ∀ i, (v.shm.entries i).length = entryLen)
    (hentry : shmEntryHeaderLen ≤ v.writer.entrySize.toNat)
    (hle : v.writer.entrySize.toNat ≤ entryLen) (hlen : entryLen ≤ 2 ^ 32)
    (hcomputed : record.recordSize = UInt32.ofNat (record.fullSize fmt))
    (hsize : record.fullSize fmt < 2 ^ 32) : v.Sound fmt entryLen (.put record) := by
  intro hover
  have hnat : record.recordSize.toNat = record.fullSize fmt := by
    rw [hcomputed, UInt32.toNat_ofNat', Nat.mod_eq_of_lt hsize]
  have hheader : (UInt32.ofNat shmEntryHeaderLen).toNat = shmEntryHeaderLen := rfl
  have hnot : record.recordSize ≤ v.writer.entrySize - UInt32.ofNat shmEntryHeaderLen := by
    simpa [isRecordSizeOver] using hover
  have hfits := UInt32.le_iff_toNat_le.1 hnot
  rw [UInt32.toNat_sub_of_le _ _ (UInt32.le_iff_toNat_le.2 (by rwa [hheader])), hheader,
    hnat] at hfits
  refine ⟨hsize, by omega, fun hneed => ?_⟩
  obtain ⟨-, hfull⟩ : v.writer.hasHeader = true ∧
      (v.writer.bfmt v.shm).full record.recordSize.toNat = false := by
    simpa [isNeedCreateEntryHeader] using hneed
  have hroom := Nat.not_lt.1 (of_decide_eq_false hfull)
  rw [hnat] at hroom
  simp only [Writer.bfmt, hlength] at hroom
  simp only [shmEntryHeaderLen]
  omega

/-- In a run whose puts meet the condition all entries hold whole records, and a record that no
entry can hold is rejected without a change. -/
theorem whole_of_sound {entrySize : UInt32} (hlength : ∀ i, (shm.entries i).length = entryLen)
    {history : List (RecordWriter η × WriterOp η)}
    (hrun : Run (fun v op v' => v' = v.step fmt op) (init shm entrySize) history v)
    (hok : StepsOk (fun _ v op => op.Computed fmt ∧ v.Sound fmt entryLen op) history) :
    v.Whole fmt entryLen ∧ ∀ record, v.Sound fmt entryLen (.put record) →
      entryLen < shmEntryHeaderLen + record.fullSize fmt →
      shmFormatPut fmt v.shm v.writer record = (-2, v.shm, v.writer) := by
  have hinit : (init shm entrySize : RecordWriter η).Whole fmt entryLen :=
    ⟨hlength, fun hheader => absurd hheader Bool.false_ne_true, fun _ => rfl,
      fun entry hentry => absurd hentry List.not_mem_nil⟩
  have hstep : ∀ {u u' : RecordWriter η} {op : WriterOp η}, u.Whole fmt entryLen →
      op.Computed fmt ∧ u.Sound fmt entryLen op → u' = u.step fmt op → u'.Whole fmt entryLen :=
    fun hwhole hop heq => heq ▸ hwhole.step hop
  refine ⟨(Run.stateInvariant hinit (fun hwhole hop heq => hstep hwhole hop heq) hrun hok).1,
    fun record hsound hlarge => ?_⟩
  cases hover : isRecordSizeOver v.writer record with
  | true => rw [shmFormatPut, hover, if_pos rfl]
  | false =>
    have hfits := (hsound hover).2.1
    omega

def twoEntries : ShmInterface := ⟨2, 0, 0, 0, fun _ => List.replicate 100 0⟩

def packetPuts : List (WriterOp PacketRecord) :=
  [.put (packetRecord ⟨9, 1, 7⟩ [71, 69, 84]), .put (packetRecord ⟨9, 1, 8⟩ (List.replicate 30 65)),
    .put (packetRecord ⟨9, 1, 9⟩ (List.replicate 99 66)), .flush, .consume]

def tcpPuts : List (WriterOp TcpRecord) :=
  [.put (tcpRecord ⟨0, 1, 0, 1, 2, 3, 4, 5, 6, 7, 8, 9, 10⟩ 0 []), .flush]

theorem puts_whole :
    (packetPuts.foldl (step packetRecordFormat) (init twoEntries 100)).Whole
      packetRecordFormat 100 ∧
    (tcpPuts.foldl (step tcpRecordFormat) (init twoEntries 100)).Whole tcpRecordFormat 100 := by
  have hlength : ∀ i, (twoEntries.entries i).length = 100 := fun _ => List.length_replicate
  have hpacket :
      StepsOk (fun _ v op => op.Computed packetRecordFormat ∧ v.Sound packetRecordFormat 100 op)
      (trace (step packetRecordFormat) (init twoEntries 100) packetPuts) :=
    StepsOk.of_forall (by decide +kernel)
  have htcp : StepsOk (fun _ v op => op.Computed tcpRecordFormat ∧ v.Sound tcpRecordFormat 100 op)
      (trace (step tcpRecordFormat) (init twoEntries 100) tcpPuts) :=
    StepsOk.of_forall (by decide +kernel)
  exact ⟨(whole_of_sound hlength (Run.trace _ _ _) hpacket).1,
    (whole_of_sound hlength (Run.trace _ _ _) htcp).1⟩

theorem shmFormatPut_ne_of_not_over (hover : isRecordSizeOver w record = false) :
    (shmFormatPut fmt shm w record).1 ≠ -2 := by
  rw [shmFormatPut, hover, if_neg Bool.false_ne_true]
  split
  · split <;> simp
  · simp

/-- An entry size below that of the header lets every record through: one of 5035 bytes is accepted
for entries of 4096 bytes. -/
theorem short_entry_accepts :
    ¬ ∀ (shm : ShmInterface) (entryLen : ℕ) (entrySize : UInt32), 0 < entrySize.toNat →
      entrySize.toNat ≤ entryLen → (∀ i, (shm.entries i).length = entryLen) →
      ∀ (history : List (RecordWriter PacketRecord × WriterOp PacketRecord)) v,
        Run (fun v op v' => v' = v.step packetRecordFormat op) (init shm entrySize) history v →
        StepsOk (fun _ _ op => op.Computed packetRecordFormat) history →
        v.Whole packetRecordFormat entryLen ∧
          ∀ rcd data,
            entryLen < shmEntryHeaderLen + (packetRecord rcd data).fullSize packetRecordFormat →
            shmFormatPut packetRecordFormat v.shm v.writer (packetRecord rcd data) =
              (-2, v.shm, v.writer) := by
  intro hclaim
  obtain ⟨-, hreject⟩ := hclaim ⟨2, 0, 0, 0, fun _ => List.replicate 4096 0⟩ 4096 10 (by decide)
    (by decide) (fun _ => List.length_replicate) [] _ .nil (StepsOk.nil _)
  have hlarge : 4096 < shmEntryHeaderLen +
      (packetRecord ⟨1, 0, 0⟩ (List.replicate 5000 0)).fullSize packetRecordFormat := by
    rw [ShmRecord.fullSize, packetRecord, List.length_replicate]
    omega
  have hover : isRecordSizeOver (init ⟨2, 0, 0, 0, fun _ => List.replicate 4096 0⟩ 10 :
      RecordWriter PacketRecord).writer (packetRecord ⟨1, 0, 0⟩ (List.replicate 5000 0)) =
        false := by
    rw [isRecordSizeOver, packetRecord, List.length_replicate]
    decide
  exact shmFormatPut_ne_of_not_over hover (congrArg Prod.fst (hreject _ _ hlarge))

end RecordWriter

end CloudHands.Shm
