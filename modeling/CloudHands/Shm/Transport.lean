import CloudHands.Lib.Run
import CloudHands.Shm.Layout
import CloudHands.Shm.Record

/-!
# The shared-memory transport as a queue

One writer and one reader on a ring of entries, each call one atomic step. The records
the reader returns are the records the writer accepted, in order and unchanged, when the
reader commits an entry only after its last record.
-/

namespace CloudHands.Shm

open Lib BinFormat

/-- The ring the writer creates. `shmEntrySize` is `entrySize` rounded up to whole pages;
the bytes of the entries are arbitrary at first. -/
structure ShmConfig where
  entrySize : UInt32
  shmEntrySize : ℕ
  count : ℕ
  entries : ℕ → List UInt8
  header_le : shmEntryHeaderLen ≤ entrySize.toNat
  entrySize_le : entrySize.toNat ≤ shmEntrySize
  shmEntrySize_le : shmEntrySize ≤ 2 ^ 32
  count_lt : count < 2 ^ 64
  entries_length : ∀ i, (entries i).length = shmEntrySize

/-- Both sides and the ring, with the records `put` accepted and `next` returned so far. -/
structure Transport (η : Type) where
  shm : ShmInterface
  writer : Writer
  reader : Reader
  accepted : List (ShmRecord η)
  returned : List (ShmRecord η)

inductive TransportOp (η : Type)
  | put (record : ShmRecord η)
  | flush
  | prefare
  | next
  | commit

section System

variable {η : Type} (fmt : RecordFormat η) (cfg : ShmConfig)

def Transport.init : Transport η where
  shm := ⟨cfg.count, 0, 0, 0, cfg.entries⟩
  writer := ⟨cfg.entrySize, false, 0, 0, 0, 0⟩
  reader := ⟨false, 0, 0, 0, 0⟩
  accepted := []
  returned := []

namespace Transport

def put (s : Transport η) (record : ShmRecord η) : Transport η :=
  let (rc, shm, writer) := shmFormatPut fmt s.shm s.writer record
  { s with
    shm := shm
    writer := writer
    accepted := if rc = 0 then s.accepted ++ [record] else s.accepted }

def flush (s : Transport η) : Transport η :=
  let (shm, writer) := shmFormatFlush s.shm s.writer
  { s with shm := shm, writer := writer }

def prefare (s : Transport η) : Transport η :=
  { s with reader := iteratorPrefare s.shm s.reader }

def next (s : Transport η) : Transport η :=
  let (record, reader) := recordNext fmt s.shm s.reader
  { s with reader := reader, returned := s.returned ++ record.toList }

def commit (s : Transport η) : Transport η :=
  let (shm, reader) := iteratorCommit s.shm s.reader
  { s with shm := shm, reader := reader }

def step (s : Transport η) : TransportOp η → Transport η
  | .put record => s.put fmt record
  | .flush => s.flush
  | .prefare => s.prefare
  | .next => s.next fmt
  | .commit => s.commit

/-- `packet_entry_read`, the loop body of the readers: the iterator is prepared when there
is none, and its entry is committed when `next` has no more record. -/
def packetEntryRead (s : Transport η) : Transport η :=
  let s := if s.reader.header then s else s.prefare
  if s.reader.header then
    if (recordNext fmt s.shm s.reader).1 = none then (s.next fmt).commit else s.next fmt
  else s

end Transport

abbrev TransportRun (history : List (Transport η × TransportOp η)) (s : Transport η) : Prop :=
  Run (fun s op s' => s' = s.step fmt op) (Transport.init cfg) history s

/-- The reader's part of the protocol: one iterator at a time, and any number of `next`
calls on it. -/
def IteratorOk (s : Transport η) : TransportOp η → Prop
  | .put record => record.WellFormed fmt
  | .prefare => s.reader.header = false
  | _ => True

/-- As above, and `commit` only when `next` has nothing more to return. -/
def TransportOk (s : Transport η) (op : TransportOp η) : Prop :=
  IteratorOk fmt s op ∧ (op = .commit → s.reader.hasNext = false)

inductive WriterInv (shm : ShmInterface) (w : Writer) (queue : List (List (ShmRecord η))) :
    List (ShmRecord η) → Prop
  | closed : w.hasHeader = false → WriterInv shm w queue []
  | opened {records : List (ShmRecord η)} : w.hasHeader = true → queue.length < cfg.count →
      w.entryIndex = shm.writeEntryPos → OpenEntry fmt (shm.entries w.entryIndex) w records →
      WriterInv shm w queue records

inductive ReaderInv (r : Reader) (readPos : ℕ) : List (List (ShmRecord η)) → Prop
  | closed {queue : List (List (ShmRecord η))} : r.header = false → ReaderInv r readPos queue
  | opened {done todo : List (ShmRecord η)} {rest : List (List (ShmRecord η))} :
      r.header = true → r.entryIndex = readPos →
      r.entriesNumber.toNat = (done ++ todo).length → r.entriesCount.toNat = done.length →
      r.pos = shmEntryHeaderLen + (recordsBytes fmt done).length →
      ReaderInv r readPos ((done ++ todo) :: rest)

def Reader.readCount (r : Reader) : ℕ := if r.header then r.entriesCount.toNat else 0

/-- `queue` lists the committed entries with their records, `records` is in the open
entry. -/
structure TransportInv (s : Transport η) (queue : List (List (ShmRecord η)))
    (records : List (ShmRecord η)) : Prop where
  count : s.shm.entriesCount = cfg.count
  countCur : s.shm.entriesCountCur = queue.length
  writePos : s.shm.writeEntryPos = (s.shm.readEntryPos + queue.length) % cfg.count
  ring : RingHolds (EntryHolds fmt) cfg.count s.shm.entries s.shm.readEntryPos queue
  length : ∀ i, (s.shm.entries i).length = cfg.shmEntrySize
  entrySize : s.writer.entrySize = cfg.entrySize
  writer : WriterInv fmt cfg s.shm s.writer queue records
  reader : ReaderInv fmt s.reader s.shm.readEntryPos queue
  flow : s.accepted = s.returned ++ (queue.flatten.drop s.reader.readCount ++ records)

variable {fmt cfg}

theorem TransportInv.init : TransportInv fmt cfg (Transport.init cfg) [] [] where
  count := rfl
  countCur := rfl
  writePos := by simp [Transport.init]
  ring := RingHolds.nil _ _ _
  length := cfg.entries_length
  entrySize := rfl
  writer := .closed rfl
  reader := .closed rfl
  flow := rfl

theorem ReaderInv.snoc {r : Reader} {readPos : ℕ} {queue : List (List (ShmRecord η))}
    (h : ReaderInv fmt r readPos queue) (records : List (ShmRecord η)) :
    ReaderInv fmt r readPos (queue ++ [records]) := by
  cases h with
  | closed hheader => exact .closed hheader
  | opened hheader hindex hnumber hcount hcursor =>
    exact .opened hheader hindex hnumber hcount hcursor

theorem ReaderInv.readCount_le {r : Reader} {readPos : ℕ} {queue : List (List (ShmRecord η))}
    (h : ReaderInv fmt r readPos queue) : r.readCount ≤ queue.flatten.length := by
  cases h with
  | closed hheader => simp [Reader.readCount, hheader]
  | opened hheader hindex hnumber hcount hcursor =>
    simp only [Reader.readCount, hheader, if_true, hcount, List.flatten_cons, List.length_append]
    omega

namespace TransportInv

variable {s : Transport η} {queue : List (List (ShmRecord η))} {records : List (ShmRecord η)}

theorem headerCommit (h : TransportInv fmt cfg s queue records)
    (hheader : s.writer.hasHeader = true) :
    TransportInv fmt cfg
      { s with
        shm := shmEntryHeaderCommit s.shm s.writer
        writer := { s.writer with hasHeader := false } } (queue ++ [records]) [] := by
  cases h.writer with
  | closed hclosed => simp [hheader] at hclosed
  | opened _ hspace hindex hentry =>
    obtain ⟨hholds, hlength⟩ := hentry.commit s.writer.pos
    have hslot : s.writer.entryIndex = (s.shm.readEntryPos + queue.length) % cfg.count := by
      rw [hindex, h.writePos]
    have hlt := cfg.count_lt
    refine ⟨h.count, ?_, ?_, ?_, ?_, h.entrySize, .closed rfl,
      h.reader.snoc records, ?_⟩
    · simp only [shmEntryHeaderCommit, ShmInterface.entryCommit, ShmInterface.store, if_true,
        h.countCur, List.length_append, List.length_singleton]
      exact Word.add_of_lt (by omega)
    · simp only [shmEntryHeaderCommit, ShmInterface.entryCommit, ShmInterface.store, if_true,
        h.writePos, h.count, List.length_append, List.length_singleton]
      rw [Nat.mod_add_mod, Nat.add_assoc]
    · refine RingHolds.push ?_ hspace ?_
      · simpa only [shmEntryHeaderCommit, ShmInterface.entryCommit, ShmInterface.store, if_true,
          hslot] using h.ring.update_back hspace _
      · simpa only [shmEntryHeaderCommit, ShmInterface.entryCommit, ShmInterface.store, if_true,
          ← hslot, Function.update_self, Writer.bfmt] using hholds
    · intro i
      simp only [shmEntryHeaderCommit, ShmInterface.entryCommit, ShmInterface.store, if_true]
      by_cases hi : i = s.writer.entryIndex
      · subst hi
        rw [Function.update_self]
        exact hlength.trans (h.length _)
      · rw [Function.update_of_ne hi]
        exact h.length i
    · have hle := h.reader.readCount_le
      simp only [h.flow, List.flatten_append, List.flatten_singleton, List.append_nil,
        List.drop_append_of_le_length hle]

theorem headerOpen (h : TransportInv fmt cfg s queue []) (hspace : queue.length < cfg.count) :
    TransportInv fmt cfg
      { s with
        writer := { s.writer with
          hasHeader := true
          entryIndex := s.shm.writeEntryPos
          pos := ((BinFormat.init (s.shm.entries s.shm.writeEntryPos)).skip shmEntryHeaderLen).pos
          entriesNumber := 0
          entriesSize := 0 } } queue [] := by
  have hroom : shmEntryHeaderLen ≤ (s.shm.entries s.shm.writeEntryPos).length := by
    rw [h.length]
    exact cfg.header_le.trans cfg.entrySize_le
  have hpos : ((BinFormat.init (s.shm.entries s.shm.writeEntryPos)).skip shmEntryHeaderLen).pos =
      shmEntryHeaderLen := by
    have hfits : (BinFormat.init (s.shm.entries s.shm.writeEntryPos)).Fits shmEntryHeaderLen := by
      simpa [Fits, BinFormat.init] using hroom
    rw [skip, hfits.full]
    simp [BinFormat.init]
  have hopen : OpenEntry fmt (s.shm.entries s.shm.writeEntryPos)
      { s.writer with
        hasHeader := true
        entryIndex := s.shm.writeEntryPos
        pos := ((BinFormat.init (s.shm.entries s.shm.writeEntryPos)).skip shmEntryHeaderLen).pos
        entriesNumber := 0
        entriesSize := 0 } [] := by
    refine ⟨rfl, by simp [hpos], by simpa [hpos] using hroom, ?_, by simp, by simp⟩
    rw [h.length]
    exact cfg.shmEntrySize_le
  exact ⟨h.count, h.countCur, h.writePos, h.ring, h.length, h.entrySize,
    .opened rfl hspace rfl hopen, h.reader, h.flow⟩

theorem headerGet (h : TransportInv fmt cfg s queue []) (hheader : s.writer.hasHeader = false) :
    ∃ b shm writer, shmEntryHeaderCreate s.shm s.writer = (b, shm, writer) ∧
      writer.hasHeader = b ∧
      TransportInv fmt cfg { s with shm := shm, writer := writer } queue [] := by
  simp only [shmEntryHeaderCreate, hheader, Bool.false_eq_true, if_false]
  by_cases hfull : s.shm.entriesCountCur = s.shm.entriesCount
  · have hget :
        s.shm.entryGet true = none := by simp [ShmInterface.entryGet, ShmInterface.full, hfull]
    rw [hget]
    exact ⟨_, _, _, rfl, rfl, h.count, h.countCur, h.writePos, h.ring, h.length, h.entrySize,
      .closed rfl, h.reader, h.flow⟩
  · have hget : s.shm.entryGet true = some s.shm.writeEntryPos := by
      simp [ShmInterface.entryGet, ShmInterface.full, hfull]
    have hspace : queue.length < cfg.count := by
      have hle := h.ring.length_le
      rw [h.countCur, h.count] at hfull
      omega
    rw [hget]
    exact ⟨_, _, _, rfl, rfl, h.headerOpen hspace⟩

theorem headerCreate (h : TransportInv fmt cfg s queue records) :
    ∃ b shm writer queue', shmEntryHeaderCreate s.shm s.writer = (b, shm, writer) ∧
      writer.hasHeader = b ∧
      TransportInv fmt cfg { s with shm := shm, writer := writer } queue' [] := by
  cases hheader : s.writer.hasHeader with
  | false =>
    have hnil : records = [] := by
      cases h.writer with
      | closed _ => rfl
      | opened hopen => simp [hheader] at hopen
    subst hnil
    obtain ⟨b, shm, writer, hcreate, hb, hinv⟩ := h.headerGet hheader
    exact ⟨b, shm, writer, queue, hcreate, hb, hinv⟩
  | true =>
    obtain ⟨b, shm, writer, hcreate, hb, hinv⟩ := (h.headerCommit hheader).headerGet rfl
    refine ⟨b, shm, writer, queue ++ [records], ?_, hb, hinv⟩
    simp only [shmEntryHeaderCreate, Bool.false_eq_true, if_false] at hcreate
    simp only [shmEntryHeaderCreate, hheader, if_true]
    exact hcreate

theorem recordWrite (h : TransportInv fmt cfg s queue records) {record : ShmRecord η}
    (hwf : record.WellFormed fmt) (hheader : s.writer.hasHeader = true)
    (hfits : s.writer.pos + record.recordSize.toNat ≤ cfg.shmEntrySize) :
    TransportInv fmt cfg
      { s with
        shm := (shmRecordWrite fmt s.shm s.writer record).1
        writer := (shmRecordWrite fmt s.shm s.writer record).2
        accepted := s.accepted ++ [record] } queue (records ++ [record]) := by
  cases h.writer with
  | closed hclosed => simp [hheader] at hclosed
  | opened _ hspace hindex hentry =>
    rw [← h.length s.writer.entryIndex] at hfits
    obtain ⟨hwritten, hlength⟩ := hentry.write hwf hfits
    have hslot : s.writer.entryIndex = (s.shm.readEntryPos + queue.length) % cfg.count := by
      rw [hindex, h.writePos]
    refine ⟨h.count, h.countCur, h.writePos, ?_, ?_, h.entrySize,
      .opened hheader hspace hindex ?_, h.reader, ?_⟩
    · simpa only [shmRecordWrite, ShmInterface.store, hslot] using h.ring.update_back hspace _
    · intro i
      simp only [shmRecordWrite, ShmInterface.store]
      by_cases hi : i = s.writer.entryIndex
      · subst hi
        rw [Function.update_self]
        exact hlength.trans (h.length _)
      · rw [Function.update_of_ne hi]
        exact h.length i
    · simpa only [shmRecordWrite, ShmInterface.store, Function.update_self,
        Writer.bfmt] using hwritten
    · simp [h.flow]

theorem fits_of_not_over (h : TransportInv fmt cfg s queue records) {record : ShmRecord η}
    (hover : isRecordSizeOver s.writer record = false) :
    shmEntryHeaderLen + record.recordSize.toNat ≤ cfg.shmEntrySize := by
  have hle := cfg.header_le
  have hsize := cfg.entrySize_le
  have hlen : (UInt32.ofNat shmEntryHeaderLen).toNat = shmEntryHeaderLen := rfl
  have hnot : record.recordSize ≤ cfg.entrySize - UInt32.ofNat shmEntryHeaderLen := by
    simpa [isRecordSizeOver, h.entrySize] using hover
  have hnat := UInt32.le_iff_toNat_le.1 hnot
  rw [UInt32.toNat_sub_of_le _ _ (UInt32.le_iff_toNat_le.2 (by rwa [hlen])), hlen] at hnat
  omega

theorem put (h : TransportInv fmt cfg s queue records) {record : ShmRecord η}
    (hwf : record.WellFormed fmt) :
    ∃ queue' records', TransportInv fmt cfg (s.put fmt record) queue' records' := by
  cases hover : isRecordSizeOver s.writer record with
  | true =>
    refine ⟨queue, records, ?_⟩
    simpa only [Transport.put, shmFormatPut, hover, if_true, Int.reduceNeg, Int.reduceEq, if_false]
      using h
  | false =>
    have hroom := h.fits_of_not_over hover
    cases hneed : isNeedCreateEntryHeader s.shm s.writer record with
    | false =>
      obtain ⟨hheader, hfull⟩ : s.writer.hasHeader = true ∧
          (s.writer.bfmt s.shm).full record.recordSize.toNat = false := by
        simpa [isNeedCreateEntryHeader] using hneed
      have hfits : s.writer.pos + record.recordSize.toNat ≤ cfg.shmEntrySize := by
        rw [← h.length s.writer.entryIndex]
        exact Nat.not_lt.1 (of_decide_eq_false hfull)
      refine ⟨queue, records ++ [record], ?_⟩
      simpa only [Transport.put, shmFormatPut, hover, hneed, Bool.false_eq_true, if_false, if_true]
        using h.recordWrite hwf hheader hfits
    | true =>
      obtain ⟨b, shm, writer, queue', hcreate, hb, hinv⟩ := h.headerCreate
      cases b with
      | false =>
        refine ⟨queue', [], ?_⟩
        simpa only [Transport.put, shmFormatPut, hover, hneed, hcreate, Bool.false_eq_true,
          if_false,
          if_true, Int.reduceNeg, Int.reduceEq] using hinv
      | true =>
        have hpos : writer.pos = shmEntryHeaderLen := by
          cases hinv.writer with
          | closed hclosed => simp [hb] at hclosed
          | opened _ _ _ hentry => simpa using hentry.pos
        rw [← hpos] at hroom
        refine ⟨queue', [] ++ [record], ?_⟩
        simpa only [Transport.put, shmFormatPut, hover, hneed, hcreate, Bool.false_eq_true,
          if_false,
          if_true] using hinv.recordWrite hwf hb hroom

theorem flush (h : TransportInv fmt cfg s queue records) :
    ∃ queue', TransportInv fmt cfg s.flush queue' [] := by
  cases hwriter : h.writer with
  | closed hheader =>
    refine ⟨queue, ?_⟩
    simpa [Transport.flush, shmFormatFlush, canBeenFlush, hheader] using h
  | opened hheader hspace hindex hentry =>
    have hpos : s.writer.pos ≠ 0 := by
      rw [hentry.pos, shmEntryHeaderLen]
      omega
    obtain ⟨b, shm, writer, queue', hcreate, -, hinv⟩ := h.headerCreate
    refine ⟨queue', ?_⟩
    simpa [Transport.flush, shmFormatFlush, canBeenFlush, hheader, hpos, hcreate] using hinv

theorem prefare (h : TransportInv fmt cfg s queue records) (hheader : s.reader.header = false) :
    TransportInv fmt cfg s.prefare queue records ∧
      (s.prefare.reader.header = false → queue = []) := by
  have hflow : s.accepted = s.returned ++ (queue.flatten ++ records) := by
    simpa [Reader.readCount, hheader] using h.flow
  cases queue with
  | nil =>
    have hget : s.shm.entryGet false = none := by
      simp [ShmInterface.entryGet, ShmInterface.empty, h.countCur]
    refine ⟨⟨h.count, h.countCur, h.writePos, h.ring, h.length, h.entrySize, h.writer, ?_, ?_⟩,
      fun _ => rfl⟩
    · exact .closed (by simp [Transport.prefare, iteratorPrefare, hget])
    · simpa [Transport.prefare, iteratorPrefare, hget, Reader.readCount] using hflow
  | cons entry rest =>
    have hget : s.shm.entryGet false = some s.shm.readEntryPos := by
      simp [ShmInterface.entryGet, ShmInterface.empty, h.countCur]
    have hentry : EntryHolds fmt (s.shm.entries s.shm.readEntryPos) entry := h.ring.front
    have hreader : s.prefare.reader =
        ⟨true, s.shm.readEntryPos, shmEntryHeaderLen, UInt32.ofNat entry.length, 0⟩ := by
      simp [Transport.prefare, iteratorPrefare, hget, hentry.readHeader]
    have hnumber : (UInt32.ofNat entry.length).toNat = ([] ++ entry).length := by
      rw [UInt32.toNat_ofNat_of_lt' hentry.number_lt, List.nil_append]
    refine ⟨⟨h.count, h.countCur, h.writePos, h.ring, h.length, h.entrySize, h.writer, ?_, ?_⟩,
      fun hnone => by simp [hreader] at hnone⟩
    · rw [hreader]
      exact @ReaderInv.opened η fmt _ _ [] entry rest rfl rfl hnumber rfl (by simp)
    · rw [hreader]
      simpa [Transport.prefare, Reader.readCount] using hflow

theorem recordNext_of_hasNext (h : TransportInv fmt cfg s queue records)
    (hnext : s.reader.hasNext = true) :
    ∃ record, (recordNext fmt s.shm s.reader).1 = some record ∧
      TransportInv fmt cfg (s.next fmt) queue records ∧
      (s.next fmt).reader.readCount = s.reader.readCount + 1 := by
  obtain ⟨hheader, hlt⟩ : s.reader.header = true ∧
      s.reader.entriesCount < s.reader.entriesNumber := by
    simpa [Reader.hasNext] using hnext
  cases hreader : h.reader with
  | closed hclosed => simp [hheader] at hclosed
  | @opened done todo rest _ hindex hnumber hcount hcursor =>
    have hltNat := UInt32.lt_iff_toNat_lt.1 hlt
    rw [hnumber, hcount, List.length_append] at hltNat
    obtain ⟨record, todo, rfl⟩ : ∃ record todo', todo = record :: todo' :=
      List.exists_cons_of_length_pos (by omega)
    have hentry : EntryHolds fmt (s.shm.entries s.shm.readEntryPos) (done ++ record :: todo) :=
      h.ring.front
    have hread := hentry.read rfl
    rw [← hcursor, ← hindex] at hread
    have hrecord : recordNext fmt s.shm s.reader = (some record, { s.reader with
        pos := shmEntryHeaderLen + (recordsBytes fmt (done ++ [record])).length
        entriesCount := s.reader.entriesCount + 1 }) := by
      simp [recordNext, hnext, hread]
    have hcount' : (s.reader.entriesCount + 1).toNat = (done ++ [record]).length := by
      have hnumber_lt := hentry.number_lt
      have hone : (1 : UInt32).toNat = 1 := rfl
      rw [List.length_append] at hnumber_lt
      rw [UInt32.toNat_add, hcount, hone, List.length_append, List.length_singleton]
      exact Nat.mod_eq_of_lt (by omega)
    have hsplit : done ++ record :: todo = (done ++ [record]) ++ todo := by simp
    refine ⟨record, by rw [hrecord],
      ⟨h.count, h.countCur, h.writePos, h.ring, h.length, h.entrySize,
      h.writer, ?_, ?_⟩, ?_⟩
    · simp only [Transport.next, hrecord, hsplit]
      exact .opened hheader hindex (by rw [hnumber, hsplit]) hcount' rfl
    · have hflow := h.flow
      simp only [Transport.next, hrecord, Reader.readCount, hheader, if_true, hcount, hcount',
        Option.toList_some] at hflow ⊢
      have hold : ((done ++ record :: todo) :: rest).flatten.drop done.length =
          record :: todo ++ rest.flatten := by
        rw [List.flatten_cons, List.append_assoc, List.drop_left]
      have hnew : ((done ++ record :: todo) :: rest).flatten.drop (done ++ [record]).length =
          todo ++ rest.flatten := by
        rw [List.flatten_cons, hsplit, List.append_assoc, List.drop_left]
      rw [hflow, hold, hnew]
      simp
    · simp [Transport.next, hrecord, Reader.readCount, hheader, hcount, hcount']

theorem recordNext_of_not_hasNext (fmt : RecordFormat η) (hnext : s.reader.hasNext = false) :
    (recordNext fmt s.shm s.reader).1 = none ∧ s.next fmt = s := by
  simp [Transport.next, recordNext, hnext]

theorem next (h : TransportInv fmt cfg s queue records) :
    TransportInv fmt cfg (s.next fmt) queue records := by
  cases hnext : s.reader.hasNext with
  | true =>
    obtain ⟨_, _, hinv, _⟩ := h.recordNext_of_hasNext hnext
    exact hinv
  | false => rwa [(recordNext_of_not_hasNext fmt hnext).2]

theorem commit_opened (h : TransportInv fmt cfg s queue records) (hheader : s.reader.header = true)
    (hnext : s.reader.hasNext = false) :
    ∃ entry rest, queue = entry :: rest ∧ s.reader.readCount = entry.length ∧
      TransportInv fmt cfg s.commit rest records ∧ s.commit.reader.readCount = 0 := by
  have hle : s.reader.entriesNumber ≤ s.reader.entriesCount := by
    simpa [Reader.hasNext, hheader] using hnext
  cases hreader : h.reader with
  | closed hclosed => simp [hheader] at hclosed
  | @opened done todo rest _ hindex hnumber hcount hcursor =>
    have hleNat := UInt32.le_iff_toNat_le.1 hle
    rw [hnumber, hcount, List.length_append] at hleNat
    obtain rfl : todo = [] := List.eq_nil_of_length_eq_zero (by omega)
    have hread : s.reader.readCount = (done ++ []).length := by
      simp [Reader.readCount, hheader, hcount]
    have hring := h.ring.length_le
    have hlt := cfg.count_lt
    rw [List.length_cons] at hring
    have hcur : Word.sub 64 s.shm.entriesCountCur 1 = rest.length := by
      rw [h.countCur, List.length_cons, Word.sub_of_le (by omega) (by omega)]
      omega
    have hcommit : s.commit = { s with
        shm := { s.shm with
          readEntryPos := (s.shm.readEntryPos + 1) % cfg.count
          entriesCountCur := rest.length }
        reader := { s.reader with header := false, entriesCount := 0 } } := by
      simp [Transport.commit, iteratorCommit, hheader, ShmInterface.entryCommit, hcur, h.count]
    refine ⟨done ++ [], rest, rfl, hread, ?_, by simp [hcommit, Reader.readCount]⟩
    rw [hcommit]
    refine ⟨h.count, rfl, ?_, h.ring.pop, h.length, h.entrySize, ?_, .closed rfl, ?_⟩
    · dsimp only
      rw [h.writePos, List.length_cons, Nat.mod_add_mod, Nat.add_assoc, Nat.add_comm 1]
    · cases hwriter : h.writer with
      | closed hclosed => exact .closed hclosed
      | opened hopen hspace hentryIndex hentry =>
        rw [List.length_cons] at hspace
        exact .opened hopen (by omega) hentryIndex hentry
    · have hflow := h.flow
      rw [hread, List.flatten_cons, List.drop_left] at hflow
      simpa [Reader.readCount] using hflow

theorem commit (h : TransportInv fmt cfg s queue records) (hnext : s.reader.hasNext = false) :
    ∃ queue', TransportInv fmt cfg s.commit queue' records := by
  cases hheader : s.reader.header with
  | true =>
    obtain ⟨_, rest, _, _, hinv, _⟩ := h.commit_opened hheader hnext
    exact ⟨rest, hinv⟩
  | false =>
    refine ⟨queue, ?_⟩
    simpa [Transport.commit, iteratorCommit, hheader] using h

end TransportInv

variable (fmt cfg) in
def Coupled (s : Transport η) : Prop := ∃ queue records, TransportInv fmt cfg s queue records

theorem Coupled.step {s s' : Transport η} {op : TransportOp η} (h : Coupled fmt cfg s)
    (hok : TransportOk fmt s op) (hstep : s' = s.step fmt op) : Coupled fmt cfg s' := by
  obtain ⟨queue, records, hinv⟩ := h
  subst hstep
  cases op with
  | put record => exact hinv.put hok.1
  | flush =>
    obtain ⟨queue', hinv'⟩ := hinv.flush
    exact ⟨queue', [], hinv'⟩
  | prefare => exact ⟨queue, records, (hinv.prefare hok.1).1⟩
  | next => exact ⟨queue, records, hinv.next⟩
  | commit =>
    obtain ⟨queue', hinv'⟩ := hinv.commit (hok.2 rfl)
    exact ⟨queue', records, hinv'⟩

theorem Coupled.run {history : List (Transport η × TransportOp η)} {s : Transport η}
    (hrun : TransportRun fmt cfg history s)
    (hok : StepsOk (fun _ => TransportOk fmt) history) : Coupled fmt cfg s := by
  have hinit : Coupled fmt cfg (Transport.init cfg) := ⟨[], [], .init⟩
  exact (Run.stateInvariant hinit Coupled.step hrun hok).1

def toRead (s : Transport η) (queue : List (List (ShmRecord η))) : ℕ :=
  queue.flatten.length - s.reader.readCount + queue.length

theorem TransportInv.toRead_le {s : Transport η} {queue : List (List (ShmRecord η))}
    {records : List (ShmRecord η)} (h : TransportInv fmt cfg s queue records) :
    toRead s queue ≤ s.accepted.length + cfg.count := by
  have hring := h.ring.length_le
  rw [toRead, h.flow]
  simp only [List.length_append, List.length_drop]
  omega

theorem TransportInv.round {s : Transport η} {queue : List (List (ShmRecord η))}
    {records : List (ShmRecord η)} (h : TransportInv fmt cfg s queue records)
    (hheader : s.reader.header = true) :
    ∃ queue', TransportInv fmt cfg
        (if (recordNext fmt s.shm s.reader).1 = none then (s.next fmt).commit else s.next fmt)
        queue' records ∧
      toRead (if (recordNext fmt s.shm s.reader).1 = none then (s.next fmt).commit
        else s.next fmt) queue' = toRead s queue - 1 := by
  cases hnext : s.reader.hasNext with
  | true =>
    obtain ⟨record, hrecord, hinv, hcount⟩ := h.recordNext_of_hasNext hnext
    have hle := hinv.reader.readCount_le
    refine ⟨queue, ?_⟩
    rw [if_neg (by simp [hrecord])]
    refine ⟨hinv, ?_⟩
    simp only [toRead, hcount] at hle ⊢
    omega
  | false =>
    obtain ⟨hnone, hsame⟩ := recordNext_of_not_hasNext fmt hnext
    obtain ⟨entry, rest, rfl, hread, hinv, hzero⟩ := h.commit_opened hheader hnext
    refine ⟨rest, ?_⟩
    rw [if_pos hnone, hsame]
    refine ⟨hinv, ?_⟩
    simp only [toRead, hread, hzero, List.flatten_cons, List.length_append, List.length_cons]
    omega

theorem prefare_readCount (s : Transport η) : s.prefare.reader.readCount = 0 := by
  have hcount : s.prefare.reader.entriesCount = 0 := by
    simp only [Transport.prefare, iteratorPrefare]
    split
    · rfl
    · split <;> rfl
  simp [Reader.readCount, hcount]

theorem TransportInv.packetEntryRead {s : Transport η} {queue : List (List (ShmRecord η))}
    {records : List (ShmRecord η)} (h : TransportInv fmt cfg s queue records) :
    ∃ queue', TransportInv fmt cfg (s.packetEntryRead fmt) queue' records ∧
      toRead (s.packetEntryRead fmt) queue' = toRead s queue - 1 := by
  cases hheader : s.reader.header with
  | true =>
    simpa only [Transport.packetEntryRead, hheader, if_true] using h.round hheader
  | false =>
    obtain ⟨hinv, hempty⟩ := h.prefare hheader
    have hzero : s.reader.readCount = 0 := by simp [Reader.readCount, hheader]
    have hsame : toRead s.prefare queue = toRead s queue := by
      rw [toRead, toRead, prefare_readCount, hzero]
    cases hopen : s.prefare.reader.header with
    | true =>
      rw [← hsame]
      simpa only [Transport.packetEntryRead, hheader, Bool.false_eq_true, if_false, hopen, if_true]
        using hinv.round hopen
    | false =>
      obtain rfl := hempty hopen
      refine ⟨[], ?_⟩
      simpa only [Transport.packetEntryRead, hheader, Bool.false_eq_true, if_false, hopen, toRead,
        List.flatten_nil, List.length_nil, Nat.zero_sub, Nat.add_zero, and_true] using hinv

theorem TransportInv.iterate {s : Transport η} {queue : List (List (ShmRecord η))}
    {records : List (ShmRecord η)} (h : TransportInv fmt cfg s queue records) (n : ℕ) :
    ∃ queue', TransportInv fmt cfg ((Transport.packetEntryRead fmt)^[n] s) queue' records ∧
      toRead ((Transport.packetEntryRead fmt)^[n] s) queue' = toRead s queue - n := by
  induction n with
  | zero => exact ⟨queue, h, rfl⟩
  | succ n ih =>
    obtain ⟨queue', hinv, hleft⟩ := ih
    obtain ⟨queue'', hinv', hleft'⟩ := hinv.packetEntryRead
    rw [Function.iterate_succ_apply']
    exact ⟨queue'', hinv', by omega⟩

theorem packetEntryRead_accepted (s : Transport η) (n : ℕ) :
    ((Transport.packetEntryRead fmt)^[n] s).accepted = s.accepted := by
  induction n with
  | zero => rfl
  | succ n ih =>
    rw [Function.iterate_succ_apply', ← ih]
    simp only [Transport.packetEntryRead, Transport.next, Transport.prefare, Transport.commit]
    split_ifs <;> rfl

variable (fmt cfg) in
/-- In every run the returned records are an initial part of the accepted ones, and after
a flush the reader's loop returns all of them. -/
structure LosslessFifo (s : Transport η) : Prop where
  prefix_accepted : s.returned <+: s.accepted
  drained : ∀ n, s.accepted.length + cfg.count ≤ n →
    ((Transport.packetEntryRead fmt)^[n] s.flush).returned = s.accepted

theorem flush_accepted (s : Transport η) : s.flush.accepted = s.accepted := rfl

theorem losslessFifo_of_run (fmt : RecordFormat η) (cfg : ShmConfig)
    (history : List (Transport η × TransportOp η)) (s : Transport η)
    (hrun : TransportRun fmt cfg history s)
    (hok : StepsOk (fun _ => TransportOk fmt) history) : LosslessFifo fmt cfg s := by
  obtain ⟨queue, records, hinv⟩ := Coupled.run hrun hok
  refine ⟨⟨_, hinv.flow.symm⟩, fun n hn => ?_⟩
  obtain ⟨queue', hflushed⟩ := hinv.flush
  obtain ⟨queue'', hread, hleft⟩ := hflushed.iterate n
  have hbound := hflushed.toRead_le
  rw [flush_accepted] at hbound
  obtain rfl : queue'' = [] := by
    apply List.eq_nil_of_length_eq_zero
    simp only [toRead] at hleft hbound
    omega
  have hflow := hread.flow
  rw [packetEntryRead_accepted, flush_accepted] at hflow
  simpa using hflow.symm

end System

def smallRing : ShmConfig where
  entrySize := 64
  shmEntrySize := 64
  count := 2
  entries _ := List.replicate 64 0
  header_le := by decide
  entrySize_le := by decide
  shmEntrySize_le := by decide
  count_lt := by decide
  entries_length _ := rfl

def firstRecord : ShmRecord PacketRecord := packetRecord ⟨9, 1, 7⟩ [71, 69, 84]

def secondRecord : ShmRecord PacketRecord := packetRecord ⟨9, 1, 8⟩ [80]

abbrev smallRun (ops : List (TransportOp PacketRecord)) : Transport PacketRecord :=
  ops.foldl (Transport.step packetRecordFormat) (Transport.init smallRing)

abbrev smallHistory (ops : List (TransportOp PacketRecord)) :
    List (Transport PacketRecord × TransportOp PacketRecord) :=
  trace (Transport.step packetRecordFormat) (Transport.init smallRing) ops

theorem firstRecord_wellFormed : firstRecord.WellFormed packetRecordFormat :=
  ⟨by decide, by decide⟩

theorem secondRecord_wellFormed : secondRecord.WellFormed packetRecordFormat :=
  ⟨by decide, by decide⟩

def deliverOps : List (TransportOp PacketRecord) :=
  [.put firstRecord, .flush, .prefare, .next, .next, .commit]

theorem losslessFifo_deliver :
    TransportRun packetRecordFormat smallRing (smallHistory deliverOps) (smallRun deliverOps) ∧
      (smallRun deliverOps).returned = [firstRecord] ∧
      LosslessFifo packetRecordFormat smallRing (smallRun deliverOps) := by
  refine ⟨Run.trace _ _ _, by decide +kernel,
    losslessFifo_of_run _ _ _ _ (Run.trace _ _ deliverOps) ?_⟩
  refine StepsOk.of_forall fun v hv => ?_
  simp only [deliverOps, trace, List.mem_cons, List.not_mem_nil, or_false] at hv
  rcases hv with rfl | rfl | rfl | rfl | rfl | rfl
  · exact ⟨firstRecord_wellFormed, by simp⟩
  · exact ⟨trivial, by simp⟩
  · exact ⟨rfl, by simp⟩
  · exact ⟨trivial, by simp⟩
  · exact ⟨trivial, by simp⟩
  · exact ⟨trivial, fun _ => by decide +kernel⟩

/-- The reader commits the first entry without a call of `next`. -/
def skipOps : List (TransportOp PacketRecord) :=
  [.put firstRecord, .flush, .prefare, .commit, .put secondRecord, .flush, .prefare, .next]

/-- The record of the committed entry is lost. -/
theorem skip_not_losslessFifo :
    TransportRun packetRecordFormat smallRing (smallHistory skipOps) (smallRun skipOps) ∧
      StepsOk (fun _ => IteratorOk packetRecordFormat) (smallHistory skipOps) ∧
      (smallRun skipOps).accepted = [firstRecord, secondRecord] ∧
      (smallRun skipOps).returned = [secondRecord] ∧
      ¬ LosslessFifo packetRecordFormat smallRing (smallRun skipOps) := by
  have haccepted : (smallRun skipOps).accepted = [firstRecord, secondRecord] := by decide +kernel
  have hreturned : (smallRun skipOps).returned = [secondRecord] := by decide +kernel
  refine ⟨Run.trace _ _ _, ?_, haccepted, hreturned, fun h => ?_⟩
  · refine StepsOk.of_forall fun v hv => ?_
    simp only [skipOps, trace, List.mem_cons, List.not_mem_nil, or_false] at hv
    rcases hv with rfl | rfl | rfl | rfl | rfl | rfl | rfl | rfl
    · exact firstRecord_wellFormed
    · exact trivial
    · exact rfl
    · exact trivial
    · exact secondRecord_wellFormed
    · exact trivial
    · show (_ : Bool) = false
      decide +kernel
    · exact trivial
  · have hprefix := h.prefix_accepted
    rw [haccepted, hreturned] at hprefix
    exact absurd hprefix (by decide)

end CloudHands.Shm
