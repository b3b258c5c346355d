import CloudHands.Shm.SessionRecord

/-!
# Readers stay in the entry

Every call of a record reader that moves the cursor, with the bytes it moves over and the
slice it returns. The typed reads of the entry readers stop at the end of the entry; what
can lead out of it are the lengths that the data announces, and the range that a session
reader takes from the `meta_data_size` of the record.
-/

namespace CloudHands.Shm

open Lib

structure EntryRange where
  lo : ℕ
  hi : ℕ
  lo_pos : 0 < lo
  le : lo ≤ hi

/-- A call that moved the cursor; the slice is null for a typed read. -/
structure ReadCall where
  fromPos : ℕ
  toPos : ℕ
  slice : DataSlice

def DataSlice.Inside (e : EntryRange) (s : DataSlice) : Prop :=
  ∀ p ∈ s.data, e.lo ≤ p ∧ p + s.len ≤ e.hi

instance (e : EntryRange) (s : DataSlice) : Decidable (s.Inside e) :=
  inferInstanceAs (Decidable (∀ p ∈ s.data, e.lo ≤ p ∧ p + s.len ≤ e.hi))

/-- The cursor was in the entry, does not pass its end, and the slice lies in it. -/
def ReadCall.Inside (e : EntryRange) (call : ReadCall) : Prop :=
  e.lo ≤ call.fromPos ∧ call.toPos ≤ e.hi ∧ call.slice.Inside e

instance (e : EntryRange) (call : ReadCall) : Decidable (call.Inside e) :=
  inferInstanceAs (Decidable (_ ∧ _))

namespace Reading

variable {α β : Type}

/-- The calls of a reader, without those that give up because their range is too short. -/
def calls (mem : Memory) : Reading α → Cursor → List ReadCall
  | .done _, _ => []
  | .value width next, c =>
    (if c.full width then [] else [⟨c.pos, c.pos + width, ⟨none, 0⟩⟩]) ++
      (next (c.valueRead mem width).1).calls mem (c.valueRead mem width).2
  | .bytes next, c =>
    (if c.full 8 then [] else [⟨c.pos, (c.bytesRead mem).2.pos, (c.bytesRead mem).1⟩]) ++
      (next (c.bytesRead mem).1).calls mem (c.bytesRead mem).2

/-- Each announced length leaves its slice in front of `hi`. A typed read needs a condition
only where the range of its cursor goes on behind `hi`. -/
def Safe (mem : Memory) (hi : ℕ) : Reading α → Cursor → Prop
  | .done _, _ => True
  | .value width next, c =>
    (c.stop ≤ hi ∨ c.stop < c.pos + width ∨ c.pos + width ≤ hi) ∧
      (next (c.valueRead mem width).1).Safe mem hi (c.valueRead mem width).2
  | .bytes next, c =>
    (c.stop < c.pos + 8 ∨ c.pos + 8 + c.valueAt mem 8 ≤ hi) ∧
      (next (c.bytesRead mem).1).Safe mem hi (c.bytesRead mem).2

theorem safe_pure (mem : Memory) (hi : ℕ) (a : α) (c : Cursor) :
    (pure a : Reading α).Safe mem hi c = True := rfl

theorem safe_bind (mem : Memory) (hi : ℕ) (r : Reading α) (k : α → Reading β) (c : Cursor) :
    (r >>= k).Safe mem hi c ↔
      r.Safe mem hi c ∧ (k (r.run mem c).1).Safe mem hi (r.run mem c).2 := by
  induction r generalizing c with
  | done a => exact Iff.of_eq (true_and _).symm
  | value width next ih =>
    refine Iff.trans (and_congr_right fun _ => ih _ _) ?_
    rw [run, Safe, and_assoc]
  | bytes next ih =>
    refine Iff.trans (and_congr_right fun _ => ih _ _) ?_
    rw [run, Safe, and_assoc]

theorem calls_inside_iff (mem : Memory) (e : EntryRange) (r : Reading α) {c : Cursor}
    (hlo : e.lo ≤ c.pos) :
    (∀ call ∈ r.calls mem c, call.Inside e) ↔ r.Safe mem e.hi c := by
  induction r generalizing c with
  | done a => simp [calls, Safe]
  | value width next ih =>
    rw [calls, Safe, List.forall_mem_append]
    cases hfull : c.full width with
    | true =>
      have hstop := Cursor.full_eq_true.1 hfull
      rw [Cursor.valueRead_of_full hfull, ih 0 hlo]
      simp [hstop]
    | false =>
      have hroom := Cursor.full_eq_false.1 hfull
      rw [Cursor.valueRead_of_not_full hfull, ih _ (by rw [Cursor.pos_advance]; omega)]
      refine and_congr_left fun _ => ?_
      simp only [Bool.false_eq_true, if_false, List.mem_singleton, forall_eq, ReadCall.Inside,
        DataSlice.Inside, Option.mem_def, reduceCtorEq, false_implies, implies_true, and_true]
      constructor
      · rintro ⟨-, hhi⟩
        exact .inr (.inr hhi)
      · rintro (hstop | hshort | hhi)
        · exact ⟨hlo, by omega⟩
        · omega
        · exact ⟨hlo, hhi⟩
  | bytes next ih =>
    rw [calls, Safe, List.forall_mem_append]
    cases hfull : c.full 8 with
    | true =>
      have hstop := Cursor.full_eq_true.1 hfull
      rw [Cursor.bytesRead_of_full hfull, ih _ hlo]
      simp [hstop]
    | false =>
      have hroom := Cursor.full_eq_false.1 hfull
      rw [Cursor.bytesRead_of_not_full hfull, ih _ (by rw [Cursor.pos_advance]; omega)]
      refine and_congr_left fun _ => ?_
      simp only [Bool.false_eq_true, if_false, List.mem_singleton, forall_eq, ReadCall.Inside,
        DataSlice.Inside, Option.mem_some, forall_eq', Cursor.pos_advance]
      constructor
      · rintro ⟨-, -, -, hhi⟩
        exact .inr hhi
      · rintro (hshort | hhi)
        · omega
        · exact ⟨hlo, by omega, by omega, hhi⟩

/-- Typed reads only, each of at most eight bytes, of `n` bytes together on every way. -/
def Typed : Reading α → ℕ → Prop
  | .done _, n => n = 0
  | .value width next, n => width ≤ 8 ∧ width ≤ n ∧ ∀ v, (next v).Typed (n - width)
  | .bytes _, _ => False

theorem Typed.bind {r : Reading α} {k : α → Reading β} {m n : ℕ} (hr : r.Typed m)
    (hk : ∀ a, (k a).Typed n) : (r >>= k).Typed (m + n) := by
  induction r generalizing m with
  | done a =>
    obtain rfl : m = 0 := hr
    rw [Nat.zero_add]
    exact hk a
  | value width next ih =>
    obtain ⟨hwidth, hm, hnext⟩ := hr
    refine ⟨hwidth, by omega, fun v => ?_⟩
    have hrest := ih v (hnext v)
    rwa [show m - width + n = m + n - width by omega] at hrest
  | bytes next ih => exact hr.elim

theorem typed_pure (a : α) : (pure a : Reading α).Typed 0 := rfl

theorem typed_value {width : ℕ} (hwidth : width ≤ 8) (f : ℕ → α) :
    (Reading.value width fun v => .done (f v)).Typed width :=
  ⟨hwidth, le_rfl, fun _ => Nat.sub_self width⟩

theorem typed_uint8 : uint8Read.Typed 1 := typed_value (by omega) _
theorem typed_uint16 : uint16Read.Typed 2 := typed_value (by omega) _
theorem typed_uint32 : uint32Read.Typed 4 := typed_value (by omega) _
theorem typed_uint64 : uint64Read.Typed 8 := typed_value (by omega) _

theorem Typed.safe {mem : Memory} {hi : ℕ} {r : Reading α} {n : ℕ} (h : r.Typed n) {c : Cursor}
    (hstop : c.stop ≤ hi) : r.Safe mem hi c := by
  induction r generalizing c n with
  | done a => trivial
  | value width next ih =>
    exact ⟨.inl hstop, ih _ (h.2.2 _) (by rw [Cursor.stop_valueRead]; exact hstop)⟩
  | bytes next ih => exact h.elim

theorem Typed.run_of_fits {r : Reading α} {n : ℕ} (h : r.Typed n) (mem : Memory) {c : Cursor}
    (hfits : c.pos + n ≤ c.stop) : (r.run mem c).2 = c.advance n := by
  induction r generalizing c n with
  | done a =>
    obtain rfl : n = 0 := h
    rfl
  | value width next ih =>
    obtain ⟨-, hn, hnext⟩ := h
    have hroom : (c.advance width).pos + (n - width) ≤ (c.advance width).stop := by
      rw [Cursor.pos_advance, Cursor.stop_advance]
      omega
    rw [run, Cursor.valueRead_of_not_full (Cursor.full_eq_false.2 (by omega)), ih _ (hnext _) hroom,
      Cursor.advance_advance, Nat.add_sub_cancel' hn]
  | bytes next ih => exact h.elim

theorem Typed.run_of_short {r : Reading α} {n : ℕ} (h : r.Typed n) (mem : Memory) {c : Cursor}
    (hshort : c.stop < c.pos + n) : c.stop < (r.run mem c).2.pos + 8 := by
  induction r generalizing c n with
  | done a =>
    obtain rfl : n = 0 := h
    dsimp only [run]
    omega
  | value width next ih =>
    obtain ⟨hwidth, hn, hnext⟩ := h
    rw [run]
    cases hfull : c.full width with
    | true =>
      have hstop := Cursor.full_eq_true.1 hfull
      rw [Cursor.valueRead_of_full hfull]
      have hmoved := (next 0).le_run_pos mem c
      dsimp only
      omega
    | false =>
      rw [Cursor.valueRead_of_not_full hfull]
      have hrest : (c.advance width).stop < (c.advance width).pos + (n - width) := by
        rw [Cursor.pos_advance, Cursor.stop_advance]
        omega
      exact ih _ (hnext _) hrest
  | bytes next ih => exact h.elim

def RecordFits (mem : Memory) (headerSize : ℕ) (c : Cursor) : Prop :=
  c.pos + headerSize ≤ c.stop → (c.valueAt mem 4).toUInt32 = eiMagic →
    c.pos + headerSize + (c.advance (headerSize - 8)).valueAt mem 8 ≤ c.stop

theorem safe_recordBody_iff {mem : Memory} {header : Reading α} {n : ℕ} (hheader : header.Typed n)
    {c : Cursor} {hi : ℕ} (hstop : c.stop = hi) :
    (do
      let recordSize ← uint32Read
      let header ← header
      let dataOffset ← uint32Read
      let data ← bytesRead
      pure (some (⟨recordSize, header, dataOffset, data⟩ : RecordSlice α))).Safe mem hi c ↔
    (c.pos + (n + 16) ≤ hi →
      c.pos + (n + 16) + (c.advance (n + 8)).valueAt mem 8 ≤ hi) := by
  have hfields : (do let _ ← uint32Read; let _ ← header; uint32Read).Typed (4 + (n + 4)) :=
    typed_uint32.bind fun _ => hheader.bind fun _ => typed_uint32
  have hsafe : (do let _ ← uint32Read; let _ ← header; uint32Read).Safe mem hi c :=
    hfields.safe hstop.le
  have hfits := hfields.run_of_fits mem (c := c)
  have hshort := hfields.run_of_short mem (c := c)
  simp only [safe_bind, run_bind] at hsafe hfits hshort ⊢
  obtain ⟨hsize, hhead, hoffset⟩ := hsafe
  rw [and_iff_right hsize, and_iff_right hhead, and_iff_right hoffset]
  have hrange := (uint32Read.run_stop mem (header.run mem (uint32Read.run mem c).2).2).trans
    ((header.run_stop mem _).trans (uint32Read.run_stop mem c))
  generalize (uint32Read.run mem (header.run mem (uint32Read.run mem c).2).2).2 = c'
    at hfits hshort hrange ⊢
  simp only [bytesRead, Safe, safe_pure, and_true]
  by_cases hroom : c.pos + (4 + (n + 4)) ≤ c.stop
  · obtain rfl := hfits hroom
    rw [show 4 + (n + 4) = n + 8 by omega, Cursor.pos_advance, Cursor.stop_advance, hstop]
    constructor
    · rintro (hcut | hdata) hheader
      · omega
      · omega
    · intro hdata
      by_cases hheader : c.pos + (n + 16) ≤ hi
      · exact .inr (by have := hdata hheader; omega)
      · exact .inl (by omega)
  · have hcut := hshort (by omega)
    constructor
    · intro _ hheader
      omega
    · intro _
      exact .inl (by omega)

theorem safe_recordReading_iff {mem : Memory} {header : Reading α} {n : ℕ}
    (hheader : header.Typed n)
    (c : Cursor) :
    (recordReading header).Safe mem c.stop c ↔ RecordFits mem (n + 20) c := by
  have hmagic : uint32Read.Safe mem c.stop c := typed_uint32.safe le_rfl
  rw [recordReading, safe_bind, and_iff_right hmagic, RecordFits]
  cases hfull : c.full 4 with
  | true =>
    -- no magic number is read, so the reader stops here
    have hstop := Cursor.full_eq_true.1 hfull
    have hnone : uint32Read.run mem c = (0, c) := by
      rw [uint32Read, run, Cursor.valueRead_of_full hfull]
      rfl
    rw [hnone]
    dsimp only
    rw [if_pos (by decide)]
    exact iff_of_true trivial fun hheader => by omega
  | false =>
    have hread : uint32Read.run mem c = ((c.valueAt mem 4).toUInt32, c.advance 4) := by
      rw [uint32Read, run, Cursor.valueRead_of_not_full hfull]
      rfl
    rw [hread]
    dsimp only
    by_cases hvalue : (c.valueAt mem 4).toUInt32 = eiMagic
    · rw [if_neg (not_not.2 hvalue), safe_recordBody_iff hheader (Cursor.stop_advance c 4),
        Cursor.pos_advance, Cursor.advance_advance, show 4 + (n + 8) = n + 20 - 8 by omega,
        show c.pos + 4 + (n + 16) = c.pos + (n + 20) by omega]
      exact ⟨fun h hheader _ => h hheader, fun h hheader => h hheader hvalue⟩
    · rw [if_pos hvalue]
      exact iff_of_true trivial fun _ h => absurd h hvalue

theorem typed_pktRecord : pktRecordReading.Typed 11 :=
  typed_uint8.bind fun _ => typed_uint16.bind fun _ => typed_uint64.bind fun _ => typed_pure _

theorem typed_tcpRecord : tcpRecordReading.Typed 66 :=
  typed_uint8.bind fun _ => typed_uint8.bind fun _ => typed_uint32.bind fun _ =>
    typed_uint64.bind fun _ => typed_uint64.bind fun _ => typed_uint32.bind fun _ =>
    typed_uint32.bind fun _ => typed_uint16.bind fun _ => typed_uint16.bind fun _ =>
    typed_uint64.bind fun _ => typed_uint64.bind fun _ => typed_uint64.bind fun _ =>
    typed_uint64.bind fun _ => typed_pure _

theorem safe_shmEntryHeader {mem : Memory} {c : Cursor} {hi : ℕ} (hstop : c.stop ≤ hi) :
    shmEntryHeaderReading.Safe mem hi c := by
  rw [shmEntryHeaderReading, safe_bind]
  refine ⟨typed_uint32.safe hstop, ?_⟩
  split
  · trivial
  · have hrest : (do
        let _major ← uint32Read
        let _minor ← uint32Read
        let entriesNumber ← uint32Read
        let _entriesSize ← uint32Read
        pure (some entriesNumber)).Typed 16 :=
      typed_uint32.bind fun _ => typed_uint32.bind fun _ => typed_uint32.bind fun _ =>
        typed_uint32.bind fun _ => typed_pure _
    exact hrest.safe (by rw [run_stop]; exact hstop)

theorem le_data_of_recordReading {mem : Memory} {header : Reading α} {c : Cursor} {lo p : ℕ}
    {record : RecordSlice α} (hlo : lo ≤ c.pos)
    (hrecord : ((recordReading header).run mem c).1 = some record) (hp : p ∈ record.data.data) :
    lo ≤ p := by
  rw [recordReading, run_bind] at hrecord
  split at hrecord
  · cases hrecord
  simp only [run_bind] at hrecord
  obtain rfl := Option.some.inj hrecord
  have hbytes := Cursor.le_data_bytesRead hp
  have h₁ := uint32Read.le_run_pos mem c
  have h₂ := uint32Read.le_run_pos mem (uint32Read.run mem c).2
  have h₃ := header.le_run_pos mem (uint32Read.run mem (uint32Read.run mem c).2).2
  have h₄ := uint32Read.le_run_pos mem
    (header.run mem (uint32Read.run mem (uint32Read.run mem c).2).2).2
  omega

theorem Within.calls_of_empty {mem : Memory} {r : Reading α} {n : ℕ} (h : r.Within n) {c : Cursor}
    (hc : c.stop ≤ c.pos) : r.calls mem c = [] := by
  induction r generalizing n with
  | done a => rfl
  | value width next ih =>
    have hfull : c.full width = true := Cursor.full_eq_true.2 (by have := h.1.1; omega)
    rw [calls, if_pos hfull, Cursor.valueRead_of_full hfull]
    exact ih 0 (h.2.2 0)
  | bytes next ih =>
    have hfull : c.full 8 = true := Cursor.full_eq_true.2 (by omega)
    rw [calls, if_pos hfull, Cursor.bytesRead_of_full hfull]
    exact ih _ (h _)

theorem mem_calls_uint8Read {mem : Memory} (k : UInt8 → Reading α) {c : Cursor}
    (hc : c.pos < c.stop) : ⟨c.pos, c.pos + 1, ⟨none, 0⟩⟩ ∈ (uint8Read >>= k).calls mem c := by
  have hfull : ¬ c.full 1 = true := by
    rw [Cursor.full_eq_true]
    omega
  exact List.mem_append_left _ (by rw [if_neg hfull]; exact List.mem_singleton_self _)

end Reading

/-- The header reader of the iterator's records; the session readers take their range from
`metaDataSize`, which only the packet records have. -/
structure RecordReader (η : Type) where
  header : Reading η
  fieldsSize : ℕ
  typed : header.Typed fieldsSize
  metaDataSize : η → Option UInt16

def packetReader : RecordReader PacketRecord :=
  ⟨pktRecordReading, 11, Reading.typed_pktRecord, fun rcd => some rcd.metaDataSize⟩

def tcpReader : RecordReader TcpRecord :=
  ⟨tcpRecordReading, 66, Reading.typed_tcpRecord, fun _ => none⟩

def RecordReader.headerSize {η : Type} (reader : RecordReader η) : ℕ := reader.fieldsSize + 20

example : packetReader.headerSize = pktRecordHeaderSize := rfl

example : tcpReader.headerSize = tcpRecordHeaderSize := rfl

/-- `ch_shm_entry_iterator_t` with the record of its format, which is null at first. -/
structure EntryIterator (η : Type) where
  header : Bool
  cursor : Cursor
  entriesNumber : UInt32
  entriesCount : UInt32
  record : Option (RecordSlice η)

inductive EntryOp
  | prefare
  | next
  | sessionTcpRead (old : SessionPeers (Option ℕ))
  | sessionUdpRead (old : SessionPeers (Option ℕ))

section Runs

variable {η : Type} (mem : Memory) (e : EntryRange) (reader : RecordReader η)

def EntryIterator.init : EntryIterator η := ⟨false, ⟨0, 0, 0⟩, 0, 0, none⟩

def EntryIterator.hasNext (s : EntryIterator η) : Bool :=
  s.header && s.entriesCount < s.entriesNumber

/-- `ch_bf_init` with the entry. -/
def EntryRange.cursor (e : EntryRange) : Cursor := ⟨e.lo, e.lo, e.hi⟩

def entryPrefare (s : EntryIterator η) : EntryIterator η :=
  match shmEntryHeaderReading.run mem e.cursor with
  | (none, c) => { s with header := false, cursor := c, entriesCount := 0 }
  | (some entriesNumber, c) => ⟨true, c, entriesNumber, 0, s.record⟩

def entryNext (s : EntryIterator η) : EntryIterator η :=
  match (recordReading reader.header).run mem s.cursor with
  | (none, c) => { s with header := false, cursor := c }
  | (some record, c) =>
    { s with cursor := c, entriesCount := s.entriesCount + 1, record := some record }

def sessionCursor (record : RecordSlice η) (metaDataSize : UInt16) : Cursor :=
  .initWithLen (record.data.data.getD 0) metaDataSize.toNat

def sessionCalls {α : Type} (s : EntryIterator η) (session : Reading α) : List ReadCall :=
  match s.record with
  | none => []
  | some record =>
    match reader.metaDataSize record.header with
    | none => []
    | some metaDataSize => session.calls mem (sessionCursor record metaDataSize)

def entryStep (s : EntryIterator η) : EntryOp → EntryIterator η × List ReadCall
  | .prefare => (entryPrefare mem e s, shmEntryHeaderReading.calls mem e.cursor)
  | .next =>
    if s.hasNext then
      (entryNext mem reader s, (recordReading reader.header).calls mem s.cursor)
    else (s, [])
  | .sessionTcpRead old => (s, sessionCalls mem reader s (packetRecordSessionTcpRead old))
  | .sessionUdpRead old => (s, sessionCalls mem reader s (packetRecordSessionUdpRead old))

def entryRun (s : EntryIterator η) : List EntryOp → EntryIterator η × List ReadCall
  | [] => (s, [])
  | op :: ops =>
    let (s', calls) := entryStep mem e reader s op
    let (s'', rest) := entryRun s' ops
    (s'', calls ++ rest)

def SessionFits {α : Type} (s : EntryIterator η) (session : Reading α) : Prop :=
  ∀ record ∈ s.record, ∀ metaDataSize ∈ reader.metaDataSize record.header,
    metaDataSize = 0 ∨ ∃ data ∈ record.data.data,
      session.Safe mem e.hi (.initWithLen data metaDataSize.toNat)

def LengthsFit (s : EntryIterator η) : EntryOp → Prop
  | .prefare => True
  | .next => s.hasNext → Reading.RecordFits mem reader.headerSize s.cursor
  | .sessionTcpRead old => SessionFits mem e reader s (packetRecordSessionTcpRead old)
  | .sessionUdpRead old => SessionFits mem e reader s (packetRecordSessionUdpRead old)

def EveryLengthFits (s : EntryIterator η) : List EntryOp → Prop
  | [] => True
  | op :: ops => LengthsFit mem e reader s op ∧ EveryLengthFits (entryStep mem e reader s op).1 ops

variable {mem e reader}

theorem sessionCalls_inside_iff {α : Type} {s : EntryIterator η} {k : UInt8 → Reading α} {n : ℕ}
    (hwithin : (Reading.uint8Read >>= k).Within n)
    (hs : ∀ record ∈ s.record, ∀ p ∈ record.data.data, e.lo ≤ p) :
    (∀ call ∈ sessionCalls mem reader s (Reading.uint8Read >>= k), call.Inside e) ↔
      SessionFits mem e reader s (Reading.uint8Read >>= k) := by
  unfold sessionCalls SessionFits
  cases hrecord : s.record with
  | none => simp
  | some record =>
    simp only [Option.mem_some, forall_eq']
    cases reader.metaDataSize record.header with
    | none => simp
    | some metaDataSize =>
      simp only [Option.mem_some, forall_eq']
      by_cases hzero : metaDataSize = 0
      · rw [hwithin.calls_of_empty (by simp [sessionCursor, Cursor.initWithLen, hzero])]
        simp [hzero]
      · have hsome : 0 < metaDataSize.toNat := by
          rw [Nat.pos_iff_ne_zero]
          exact fun h => hzero (UInt16.toNat_inj.1 h)
        rw [or_iff_right hzero, sessionCursor]
        cases hdata : record.data.data with
        | none =>
          -- the reader starts at the null pointer
          refine iff_of_false (fun hinside => ?_) (by simp)
          have hfirst := hinside _ (Reading.mem_calls_uint8Read k (by
            dsimp only [Cursor.initWithLen]; omega))
          exact absurd hfirst.1 (Nat.not_le.2 e.lo_pos)
        | some data =>
          have hlo : e.lo ≤ data := hs record hrecord data hdata
          simp only [Option.mem_some, exists_eq_left', Option.getD_some]
          exact Reading.calls_inside_iff mem e _ hlo

structure InEntry (e : EntryRange) (s : EntryIterator η) : Prop where
  stop : s.header = true → s.cursor.stop = e.hi
  pos : s.header = true → e.lo ≤ s.cursor.pos
  data : ∀ record ∈ s.record, ∀ p ∈ record.data.data, e.lo ≤ p

theorem inEntry_init : InEntry e (EntryIterator.init : EntryIterator η) where
  stop := nofun
  pos := nofun
  data := nofun

theorem InEntry.prefare {s : EntryIterator η} (h : InEntry e s) :
    InEntry e (entryPrefare mem e s) := by
  have hstop := shmEntryHeaderReading.run_stop mem e.cursor
  have hpos := shmEntryHeaderReading.le_run_pos mem e.cursor
  unfold entryPrefare
  split
  case h_1 => exact ⟨nofun, nofun, h.data⟩
  case h_2 hread =>
    rw [hread] at hstop hpos
    exact ⟨fun _ => hstop, fun _ => hpos, h.data⟩

theorem InEntry.next {s : EntryIterator η} (h : InEntry e s) (hheader : s.header = true) :
    InEntry e (entryNext mem reader s) := by
  have hstop := (recordReading reader.header).run_stop mem s.cursor
  have hpos := (recordReading reader.header).le_run_pos mem s.cursor
  unfold entryNext
  split
  case h_1 => exact ⟨nofun, nofun, h.data⟩
  case h_2 record c hread =>
    rw [hread] at hstop hpos
    refine ⟨fun _ => hstop.trans (h.stop hheader), fun _ => (h.pos hheader).trans hpos, ?_⟩
    intro record' hrecord p hp
    obtain rfl := Option.some.inj hrecord
    exact Reading.le_data_of_recordReading (h.pos hheader) (by rw [hread]) hp

theorem InEntry.step {s : EntryIterator η} (h : InEntry e s) (op : EntryOp) :
    InEntry e (entryStep mem e reader s op).1 := by
  cases op with
  | prefare => exact h.prefare
  | next =>
    rw [entryStep]
    split
    case isTrue hnext => exact h.next (Bool.and_eq_true_iff.1 hnext).1
    case isFalse => exact h
  | sessionTcpRead old => exact h
  | sessionUdpRead old => exact h

theorem InEntry.calls_inside_iff {s : EntryIterator η} (h : InEntry e s) (op : EntryOp) :
    (∀ call ∈ (entryStep mem e reader s op).2, call.Inside e) ↔ LengthsFit mem e reader s op := by
  cases op with
  | prefare =>
    exact iff_of_true ((Reading.calls_inside_iff mem e _ le_rfl).2
      (Reading.safe_shmEntryHeader le_rfl)) trivial
  | next =>
    rw [entryStep, LengthsFit]
    split
    case isTrue hnext =>
      have hheader := (Bool.and_eq_true_iff.1 hnext).1
      rw [Reading.calls_inside_iff mem e _ (h.pos hheader), ← h.stop hheader,
        Reading.safe_recordReading_iff reader.typed]
      exact ⟨fun hfits _ => hfits, fun hfits => hfits hnext⟩
    case isFalse hnext => simp [hnext]
  | sessionTcpRead old =>
    exact sessionCalls_inside_iff (Reading.within_uint8.bind fun _ => Reading.within_uint16.bind
      fun _ => Reading.within_uint16.bind fun _ => (within_body old _ _).bind fun _ =>
        Reading.within_pure _ 0) h.data
  | sessionUdpRead old =>
    exact sessionCalls_inside_iff (Reading.within_uint8.bind fun _ => Reading.within_uint16.bind
      fun _ => within_body old _ _) h.data

theorem InEntry.run_inside_iff {s : EntryIterator η} (h : InEntry e s) (ops : List EntryOp) :
    (∀ call ∈ (entryRun mem e reader s ops).2, call.Inside e) ↔
      EveryLengthFits mem e reader s ops := by
  induction ops generalizing s with
  | nil => simp [entryRun, EveryLengthFits]
  | cons op ops ih =>
    rw [entryRun, EveryLengthFits, ← ih (h.step op), ← h.calls_inside_iff op]
    exact List.forall_mem_append

end Runs

/-- Over any content of an entry, any sequence of calls of the packet record readers and of
the TCP record readers stays in the entry iff at each of them the announced lengths fit. -/
theorem record_readers_confined (mem : Memory) (e : EntryRange) (ops : List EntryOp) :
    ((∀ call ∈ (entryRun mem e packetReader .init ops).2, call.Inside e) ↔
      EveryLengthFits mem e packetReader .init ops) ∧
    ((∀ call ∈ (entryRun mem e tcpReader .init ops).2, call.Inside e) ↔
      EveryLengthFits mem e tcpReader .init ops) :=
  ⟨inEntry_init.run_inside_iff ops, inEntry_init.run_inside_iff ops⟩

/-- An entry of 51 bytes at address 4096: the header of one record, which announces one byte
of data behind the end of the entry. -/
def overrunEntry : Memory :=
  Memory.write (fun _ => 0) 4096
    (headerBytes 1 31 ++ (bigEndian 4 eiMagic.toNat ++ (bigEndian 4 31 ++
      (packetRecordFormat.encode ⟨1, 154, 0⟩ ++ (bigEndian 4 0 ++ bigEndian 8 1)))))

theorem overrun_not_confined :
    ¬ ∀ call ∈ (entryRun overrunEntry ⟨4096, 4147, by omega, by omega⟩ packetReader .init
      [.prefare, .next]).2, call.Inside ⟨4096, 4147, by omega, by omega⟩ := by
  decide +kernel

end CloudHands.Shm
