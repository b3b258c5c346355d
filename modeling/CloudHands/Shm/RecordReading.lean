import CloudHands.Shm.Record
import CloudHands.Shm.Reading

/-!
# The record readers over the memory

The readers of `lib/shm/ch_shm_format.c`, `lib/shm/ch_packet_record.c` and
`lib/shm/ch_tcp_record.c` by their calls. On an entry they do what the readers over the
bytes of that entry do, with a pointer in place of the data.
-/

namespace CloudHands.Shm

open Lib

def pktRecordReading : Reading PacketRecord := do
  let type ← Reading.uint8Read
  let metaDataSize ← Reading.uint16Read
  let time ← Reading.uint64Read
  pure ⟨type, metaDataSize, time⟩

def tcpRecordReading : Reading TcpRecord := do
  let packetType ← Reading.uint8Read
  let sessionDirect ← Reading.uint8Read
  let protocolId ← Reading.uint32Read
  let sessionId ← Reading.uint64Read
  let time ← Reading.uint64Read
  let srcIp ← Reading.uint32Read
  let dstIp ← Reading.uint32Read
  let srcPort ← Reading.uint16Read
  let dstPort ← Reading.uint16Read
  let reqPackets ← Reading.uint64Read
  let reqBytes ← Reading.uint64Read
  let resPackets ← Reading.uint64Read
  let resBytes ← Reading.uint64Read
  pure ⟨packetType, sessionDirect, protocolId, sessionId, time, srcIp, dstIp, srcPort, dstPort,
    reqPackets, reqBytes, resPackets, resBytes⟩

/-- `_shm_entry_header_read`: the number of records, unless the magic number is wrong. -/
def shmEntryHeaderReading : Reading (Option UInt32) := do
  let magic ← Reading.uint32Read
  if magic ≠ fiMagic then
    pure none
  else
    let _major ← Reading.uint32Read
    let _minor ← Reading.uint32Read
    let entriesNumber ← Reading.uint32Read
    let _entriesSize ← Reading.uint32Read
    pure (some entriesNumber)

structure RecordSlice (η : Type) where
  recordSize : UInt32
  header : η
  dataOffset : UInt32
  data : DataSlice

/-- `_record_read` with one of the header readers, which never fail here. -/
def recordReading {η : Type} (header : Reading η) : Reading (Option (RecordSlice η)) := do
  let magic ← Reading.uint32Read
  if magic ≠ eiMagic then
    pure none
  else
    let recordSize ← Reading.uint32Read
    let header ← header
    let dataOffset ← Reading.uint32Read
    let data ← Reading.bytesRead
    pure (some ⟨recordSize, header, dataOffset, data⟩)

/-- The range of the cursor holds the bytes of `bf`, at the same position. -/
structure Views (mem : Memory) (c : Cursor) (bf : BinFormat) : Prop where
  bytes : bf.bytes = mem.read c.start (c.stop - c.start)
  pos : c.pos = c.start + bf.pos
  start_le : c.start ≤ c.stop

theorem Views.full {mem : Memory} {c : Cursor} {bf : BinFormat} (h : Views mem c bf) (n : ℕ) :
    c.full n = bf.full n := by
  have hpos := h.pos
  have hle := h.start_le
  rw [Cursor.full, BinFormat.full, h.bytes, Memory.length_read, decide_eq_decide]
  omega

theorem Views.advance {mem : Memory} {c : Cursor} {bf : BinFormat} (h : Views mem c bf) (n : ℕ) :
    Views mem (c.advance n) { bf with pos := bf.pos + n } := by
  refine ⟨h.bytes, ?_, h.start_le⟩
  rw [Cursor.pos_advance, h.pos, Nat.add_assoc]
  rfl

theorem Views.take_drop {mem : Memory} {c : Cursor} {bf : BinFormat} (h : Views mem c bf) (n : ℕ) :
    (bf.bytes.drop bf.pos).take n = mem.read c.pos (min n (c.stop - c.pos)) := by
  have hpos := h.pos
  apply List.ext_getElem
  · rw [List.length_take, List.length_drop, h.bytes, Memory.length_read, Memory.length_read]
    omega
  · intro i hi _
    simp only [h.bytes, Memory.read, List.getElem_take, List.getElem_drop, List.getElem_map,
      List.getElem_range, hpos, Nat.add_assoc]

/-- `r` does over the memory what `f` does over the bytes. -/
def Follows {α : Type} (r : Reading α) (f : BinFormat → α × BinFormat) : Prop :=
  ∀ {mem c bf}, Views mem c bf →
    ∃ a c' bf', r.run mem c = (a, c') ∧ f bf = (a, bf') ∧ Views mem c' bf'

theorem follows_value {α : Type} (width : ℕ) (f : ℕ → α) :
    Follows (.value width fun v => .done (f v))
      fun bf => (f (bf.valueRead width).1, (bf.valueRead width).2) := by
  intro mem c bf hview
  have hfull := hview.full width
  simp only [Reading.run]
  cases h : bf.full width with
  | true =>
    rw [Cursor.valueRead_of_full (hfull.trans h), BinFormat.valueRead, if_pos h]
    exact ⟨_, _, _, rfl, rfl, hview⟩
  | false =>
    have hroom := Cursor.full_eq_false.1 (hfull.trans h)
    rw [Cursor.valueRead_of_not_full (hfull.trans h), BinFormat.valueRead, if_neg (by simp [h]),
      hview.take_drop, Nat.min_eq_left (by omega), Cursor.valueAt]
    exact ⟨_, _, _, rfl, rfl, hview.advance width⟩

theorem follows_uint8 : Follows Reading.uint8Read BinFormat.uint8Read :=
  follows_value 1 Nat.toUInt8

theorem follows_uint16 : Follows Reading.uint16Read BinFormat.uint16Read :=
  follows_value 2 Nat.toUInt16

theorem follows_uint32 : Follows Reading.uint32Read BinFormat.uint32Read :=
  follows_value 4 Nat.toUInt32

theorem follows_uint64 : Follows Reading.uint64Read BinFormat.uint64Read :=
  follows_value 8 Nat.toUInt64

def ReadsHeader {η : Type} (fmt : RecordFormat η) (header : Reading η) : Prop :=
  Follows (do let rcd ← header; pure (some rcd)) fmt.shmRecordRead

theorem readsHeader_pktRecord : ReadsHeader packetRecordFormat pktRecordReading := by
  intro mem c bf h
  obtain ⟨_, _, _, r₁, b₁, h₁⟩ := follows_uint8 h
  obtain ⟨_, _, _, r₂, b₂, h₂⟩ := follows_uint16 h₁
  obtain ⟨_, _, _, r₃, b₃, h₃⟩ := follows_uint64 h₂
  simp only [pktRecordReading, Reading.run_bind, r₁, r₂, r₃, packetRecordFormat, pktRecordRead, b₁,
    b₂, b₃]
  exact ⟨_, _, _, rfl, rfl, h₃⟩

theorem readsHeader_tcpRecord : ReadsHeader tcpRecordFormat tcpRecordReading := by
  intro mem c bf h
  obtain ⟨_, _, _, r₁, b₁, h₁⟩ := follows_uint8 h
  obtain ⟨_, _, _, r₂, b₂, h₂⟩ := follows_uint8 h₁
  obtain ⟨_, _, _, r₃, b₃, h₃⟩ := follows_uint32 h₂
  obtain ⟨_, _, _, r₄, b₄, h₄⟩ := follows_uint64 h₃
  obtain ⟨_, _, _, r₅, b₅, h₅⟩ := follows_uint64 h₄
  obtain ⟨_, _, _, r₆, b₆, h₆⟩ := follows_uint32 h₅
  obtain ⟨_, _, _, r₇, b₇, h₇⟩ := follows_uint32 h₆
  obtain ⟨_, _, _, r₈, b₈, h₈⟩ := follows_uint16 h₇
  obtain ⟨_, _, _, r₉, b₉, h₉⟩ := follows_uint16 h₈
  obtain ⟨_, _, _, r₁₀, b₁₀, h₁₀⟩ := follows_uint64 h₉
  obtain ⟨_, _, _, r₁₁, b₁₁, h₁₁⟩ := follows_uint64 h₁₀
  obtain ⟨_, _, _, r₁₂, b₁₂, h₁₂⟩ := follows_uint64 h₁₁
  obtain ⟨_, _, _, r₁₃, b₁₃, h₁₃⟩ := follows_uint64 h₁₂
  simp only [tcpRecordReading, Reading.run_bind, r₁, r₂, r₃, r₄, r₅, r₆, r₇, r₈, r₉, r₁₀, r₁₁, r₁₂,
    r₁₃, tcpRecordFormat, tcpRecordRead, b₁, b₂, b₃, b₄, b₅, b₆, b₇, b₈, b₉, b₁₀, b₁₁, b₁₂, b₁₃]
  exact ⟨_, _, _, rfl, rfl, h₁₃⟩

def DataSlice.upTo (mem : Memory) (stop : ℕ) (s : DataSlice) : List UInt8 :=
  match s.data with
  | none => []
  | some p => mem.read p (min s.len (stop - p))

theorem follows_bytes {mem : Memory} {c : Cursor} {bf : BinFormat} (h : Views mem c bf) :
    ∃ s c' bf', Reading.bytesRead.run mem c = (s, c') ∧
      bf.bytesRead = (s.upTo mem c'.stop, bf') ∧ Views mem c' bf' := by
  have hfull := h.full 8
  simp only [Reading.bytesRead, Reading.run]
  cases hbf : bf.full 8 with
  | true =>
    rw [Cursor.bytesRead_of_full (hfull.trans hbf), BinFormat.bytesRead, if_pos hbf]
    exact ⟨_, _, _, rfl, rfl, h⟩
  | false =>
    obtain ⟨len, c', bf', hr, hb, hview⟩ := follows_value 8 id h
    simp only [Reading.run, Cursor.valueRead_of_not_full (hfull.trans hbf), id, Prod.mk.injEq] at hr
    obtain ⟨rfl, rfl⟩ := hr
    have hsize : bf.sizeRead = (c.valueAt mem 8, bf') := hb
    rw [Cursor.bytesRead_of_not_full (hfull.trans hbf), BinFormat.bytesRead, if_neg (by simp [hbf]),
      hsize]
    have hdata := hview.take_drop (c.valueAt mem 8)
    have hmoved := hview.advance (c.valueAt mem 8)
    rw [Cursor.stop_advance, Cursor.pos_advance] at hdata
    rw [Cursor.advance_advance] at hmoved
    refine ⟨_, _, _, rfl, ?_, hmoved⟩
    rw [Cursor.stop_advance, DataSlice.upTo]
    dsimp only
    rw [hdata]

def RecordSlice.toRead {η : Type} (mem : Memory) (stop : ℕ) : Option (RecordSlice η) → RecordRead η
  | none => .badMagic
  | some r => .ok ⟨r.recordSize, r.header, r.dataOffset, r.data.upTo mem stop⟩

/-- `_record_read` over the memory of an entry and over the bytes of it. -/
theorem recordReading_follows {η : Type} {fmt : RecordFormat η} {header : Reading η} {mem : Memory}
    (hheader : ReadsHeader fmt header) {c : Cursor} {bf : BinFormat} (h : Views mem c bf) :
    ∃ record c' bf', (recordReading header).run mem c = (record, c') ∧
      recordRead fmt bf = (RecordSlice.toRead mem c'.stop record, bf') ∧ Views mem c' bf' := by
  obtain ⟨magic, c₁, bf₁, r₁, b₁, h₁⟩ := follows_uint32 h
  simp only [recordReading, recordRead, Reading.run_bind, r₁, b₁]
  split
  · exact ⟨_, _, _, rfl, rfl, h₁⟩
  obtain ⟨_, c₂, _, r₂, b₂, h₂⟩ := follows_uint32 h₁
  obtain ⟨_, c₃, _, r₃, b₃, h₃⟩ := hheader h₂
  obtain ⟨_, _, _, r₄, b₄, h₄⟩ := follows_uint32 h₃
  obtain ⟨_, _, _, r₅, b₅, h₅⟩ := follows_bytes h₄
  rw [Reading.run_bind] at r₃
  obtain ⟨rfl, rfl⟩ := Prod.mk.inj r₃
  simp only [Reading.run_bind, r₂, r₄, r₅, b₂, b₃, b₄, b₅]
  exact ⟨_, _, _, rfl, rfl, h₅⟩

end CloudHands.Shm
