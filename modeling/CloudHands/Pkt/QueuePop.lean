import CloudHands.Pkt.Parse

/-!
# Copying a packet out of a queue

`MProcess/ch_process_interface.c` with `ch_packets_copy` and `ch_packets_merge`. A popped packet
is copied into the buffer of its queue, the packet structure first and the data of its mbuf
behind it. The buffer is enlarged when it is too small for the data; the structure is counted
in the new size only.
-/

namespace CloudHands.Pkt

open CloudHands.Word (sub)

def sizeofPacket : ℕ := 56

def sizeofPointer : ℕ := 8

/-- A packet with the data of the segments of its mbuf; `dlen` and the lengths of the segments
are 16-bit numbers. -/
structure QueuedPacket extends Packet where
  timestamp : ℕ
  segs : List (List UInt8)
  segs_ne : segs ≠ []
  dataLen : ∀ seg ∈ segs, seg.length < 2 ^ 16
  dlen_lt : dlen < 2 ^ 16

/-- `ch_process_queue_t` with the number of bytes behind `pbuff`. -/
structure ProcessQueue where
  isPktCopy : Bool
  psize : ℕ
  allocated : ℕ
  room : allocated = psize + sizeofPointer

/-- The buffer of `_process_queue_create` for a reader. -/
def processQueueCreate (isPktCopy : Bool) : ProcessQueue :=
  ⟨isPktCopy, 64 * 1024, 64 * 1024 + sizeofPointer, rfl⟩

/-- `_packet_buff_update`; `malloc` may fail. -/
def packetBuffUpdate (mallocOk : Bool) (queue : ProcessQueue) (pktLen : ℕ) : ProcessQueue :=
  if pktLen ≤ queue.psize then queue
  else if mallocOk then ⟨queue.isPktCopy, pktLen, pktLen + sizeofPointer, rfl⟩
  else queue

/-- The loop of `ch_packets_merge`: the bytes it copies, when `dlen` have been copied. -/
def packetsMerge (pbsize : ℕ) : List (List UInt8) → ℕ → List UInt8
  | [], _ => []
  | m :: ms, dlen =>
    if pbsize ≤ dlen + m.length then [] else m ++ packetsMerge pbsize ms (dlen + m.length)

structure PoppedPacket where
  packet : Packet
  timestamp : ℕ
  isFree : Bool
  extent : ℕ

def PoppedPacket.bytes (popped : PoppedPacket) : List UInt8 :=
  popped.packet.data.take popped.packet.dlen

/-- `ch_packets_copy`; all fields of the structure but `is_free` are copied. -/
def packetsCopy (pbsize : ℕ) (pkt : QueuedPacket) : PoppedPacket :=
  let pbsize := sub 64 pbsize sizeofPacket
  let copied :=
    if pkt.segs.length ≤ 1 then pkt.segs.head pkt.segs_ne else packetsMerge pbsize pkt.segs 0
  { packet := { pkt.toPacket with data := copied, dlen := copied.length % 2 ^ 16 }
    timestamp := pkt.timestamp
    isFree := true
    extent := sizeofPacket + copied.length }

/-- `ch_process_queue_pop` copies the packet. -/
def Copies (queue : ProcessQueue) (pkt : QueuedPacket) : Prop :=
  queue.isPktCopy = true ∨ 1 < pkt.segs.length

instance (queue : ProcessQueue) (pkt : QueuedPacket) : Decidable (Copies queue pkt) :=
  inferInstanceAs (Decidable (_ ∨ _))

/-- `ch_process_queue_pop` of a packet. -/
def processQueuePop (mallocOk : Bool) (queue : ProcessQueue) (pkt : QueuedPacket) :
    ProcessQueue × PoppedPacket :=
  if Copies queue pkt then
    let queue :=
      if queue.psize < pkt.dlen then packetBuffUpdate mallocOk queue (pkt.dlen + sizeofPacket)
      else queue
    (queue, packetsCopy queue.psize pkt)
  else (queue, ⟨pkt.toPacket, pkt.timestamp, false, 0⟩)

theorem packetsMerge_isPrefix (pbsize : ℕ) (ms : List (List UInt8)) (dlen : ℕ) :
    packetsMerge pbsize ms dlen <+: ms.flatten := by
  induction ms generalizing dlen with
  | nil => exact List.prefix_rfl
  | cons m ms ih =>
    rw [packetsMerge, List.flatten_cons]
    split
    · exact List.nil_prefix
    · exact (List.prefix_append_right_inj m).2 (ih _)

theorem packetsMerge_all {pbsize dlen : ℕ} {ms : List (List UInt8)}
    (h : dlen + ms.flatten.length < pbsize) : packetsMerge pbsize ms dlen = ms.flatten := by
  induction ms generalizing dlen with
  | nil => rfl
  | cons m ms ih =>
    rw [List.flatten_cons, List.length_append] at h
    rw [packetsMerge, List.flatten_cons, if_neg (by omega), ih (by omega)]

theorem packetsMerge_lt (pbsize : ℕ) (ms : List (List UInt8)) (dlen : ℕ) :
    packetsMerge pbsize ms dlen = [] ∨ dlen + (packetsMerge pbsize ms dlen).length < pbsize := by
  induction ms generalizing dlen with
  | nil => exact Or.inl rfl
  | cons m ms ih =>
    rw [packetsMerge]
    split
    · exact Or.inl rfl
    · rename_i hroom
      right
      rw [List.length_append]
      rcases ih (dlen + m.length) with hnil | hlt
      · rw [hnil, List.length_nil]
        omega
      · omega

theorem packetsMerge_eq_iff (pbsize : ℕ) (ms : List (List UInt8)) :
    packetsMerge pbsize ms 0 = ms.flatten ↔
      ms.flatten.length < pbsize ∨ ms.flatten.length = 0 := by
  constructor
  · intro h
    rcases packetsMerge_lt pbsize ms 0 with hnil | hlt
    · right
      rw [← h, hnil, List.length_nil]
    · left
      rw [← h]
      omega
  · rintro (hlt | hzero)
    · exact packetsMerge_all (by omega)
    · have hnil := List.length_eq_zero_iff.1 hzero
      have hprefix := packetsMerge_isPrefix pbsize ms 0
      rw [hnil] at hprefix ⊢
      exact List.prefix_nil.1 hprefix

theorem take_mod_eq_iff {copied all : List UInt8} (h : copied <+: all) :
    copied.take (copied.length % 2 ^ 16) = all ↔ copied = all ∧ all.length < 2 ^ 16 := by
  have hmod : copied.length % 2 ^ 16 < 2 ^ 16 := Nat.mod_lt _ (by norm_num)
  have hmodle : copied.length % 2 ^ 16 ≤ copied.length := Nat.mod_le _ _
  constructor
  · intro htake
    have hlen := congrArg List.length htake
    rw [List.length_take, Nat.min_eq_left hmodle] at hlen
    have hle := h.length_le
    exact ⟨h.eq_of_length (by omega), by omega⟩
  · rintro ⟨rfl, hlt⟩
    rw [Nat.mod_eq_of_lt hlt, List.take_length]

def sizeAfter (queue : ProcessQueue) (pkt : QueuedPacket) : ℕ :=
  if queue.psize < pkt.dlen then pkt.dlen + sizeofPacket else queue.psize

def QueuedPacket.total (pkt : QueuedPacket) : ℕ := pkt.segs.flatten.length

structure PopSafe (pkt : QueuedPacket) (res : ProcessQueue × PoppedPacket) : Prop where
  inside : res.2.extent ≤ res.1.allocated
  bytes : res.2.bytes = pkt.segs.flatten
  offsets : (res.2.packet.l2Len, res.2.packet.l3Len, res.2.packet.l4Len,
      res.2.packet.parseOff) = (pkt.l2Len, pkt.l3Len, pkt.l4Len, pkt.parseOff)

/-- The structure and the data fit, and of a chain of segments the merge leaves a byte. -/
structure PopFits (queue : ProcessQueue) (pkt : QueuedPacket) : Prop where
  all : sizeofPacket + pkt.total ≤ sizeAfter queue pkt + sizeofPointer
  chain : 1 < pkt.segs.length →
    (pkt.total < sub 64 (sizeAfter queue pkt) sizeofPacket ∨ pkt.total = 0) ∧ pkt.total < 2 ^ 16

theorem processQueuePop_copy {mallocOk : Bool} {queue : ProcessQueue} {pkt : QueuedPacket}
    (hcopy : Copies queue pkt) (hupdate : pkt.dlen ≤ queue.psize ∨ mallocOk = true) :
    (processQueuePop mallocOk queue pkt).1.psize = sizeAfter queue pkt ∧
      (processQueuePop mallocOk queue pkt).2 = packetsCopy (sizeAfter queue pkt) pkt := by
  rw [processQueuePop, if_pos hcopy, sizeAfter]
  by_cases hsmall : queue.psize < pkt.dlen
  · have hmalloc := hupdate.resolve_left (not_le.2 hsmall)
    have hgrows : ¬ pkt.dlen + sizeofPacket ≤ queue.psize := by omega
    simp only [if_pos hsmall, packetBuffUpdate, if_neg hgrows, hmalloc, if_true, and_self]
  · simp only [if_neg hsmall, and_self]

theorem packetsCopy_single (pbsize : ℕ) {pkt : QueuedPacket} (h : pkt.segs.length ≤ 1) :
    (packetsCopy pbsize pkt).packet.data = pkt.segs.flatten ∧ pkt.total < 2 ^ 16 := by
  obtain ⟨seg, hseg⟩ : ∃ seg, pkt.segs = [seg] := by
    refine List.length_eq_one_iff.1 (le_antisymm h ?_)
    exact List.length_pos_iff.2 pkt.segs_ne
  have hlt := pkt.dataLen seg (by simp [hseg])
  have hflat : pkt.segs.flatten = seg := by rw [hseg, List.flatten_singleton]
  have hhead : pkt.segs.head pkt.segs_ne = seg := by simp only [hseg, List.head_cons]
  refine ⟨?_, by rwa [QueuedPacket.total, hflat]⟩
  simp only [packetsCopy, if_pos h, hhead, hflat]

theorem packetsCopy_chain {pbsize : ℕ} {pkt : QueuedPacket} (h : 1 < pkt.segs.length) :
    (packetsCopy pbsize pkt).packet.data =
      packetsMerge (sub 64 pbsize sizeofPacket) pkt.segs 0 := by
  simp only [packetsCopy, if_neg (not_le.2 h)]

theorem packetsCopy_bytes (pbsize : ℕ) (pkt : QueuedPacket) :
    (packetsCopy pbsize pkt).bytes = pkt.segs.flatten ↔
      (1 < pkt.segs.length →
        (pkt.total < sub 64 pbsize sizeofPacket ∨ pkt.total = 0) ∧ pkt.total < 2 ^ 16) := by
  have hbytes : (packetsCopy pbsize pkt).bytes =
      (packetsCopy pbsize pkt).packet.data.take
        ((packetsCopy pbsize pkt).packet.data.length % 2 ^ 16) := rfl
  rw [hbytes]
  by_cases hchain : 1 < pkt.segs.length
  · rw [packetsCopy_chain hchain, take_mod_eq_iff (packetsMerge_isPrefix _ _ 0),
      packetsMerge_eq_iff, forall_prop_of_true hchain]
    rfl
  · obtain ⟨hdata, hlt⟩ := packetsCopy_single pbsize (not_lt.1 hchain)
    rw [hdata, take_mod_eq_iff List.prefix_rfl]
    exact ⟨fun _ h => absurd h hchain, fun _ => ⟨rfl, hlt⟩⟩

theorem packetsCopy_extent (pbsize : ℕ) (pkt : QueuedPacket) : (packetsCopy pbsize pkt).extent =
    sizeofPacket + (packetsCopy pbsize pkt).packet.data.length := rfl

/-- A copied packet is safe exactly when it fits, for every buffer, length and chain. -/
theorem pop_safe_iff (mallocOk : Bool) (queue : ProcessQueue) (pkt : QueuedPacket)
    (hcopy : Copies queue pkt) (hupdate : pkt.dlen ≤ queue.psize ∨ mallocOk = true) :
    PopSafe pkt (processQueuePop mallocOk queue pkt) ↔ PopFits queue pkt := by
  obtain ⟨hsize, hpopped⟩ := processQueuePop_copy hcopy hupdate
  have hroom := (processQueuePop mallocOk queue pkt).1.room
  -- when all bytes are there, the extent is that of the structure and all data
  have hwhole : (packetsCopy (sizeAfter queue pkt) pkt).bytes = pkt.segs.flatten →
      (packetsCopy (sizeAfter queue pkt) pkt).extent = sizeofPacket + pkt.total := by
    intro hbytes
    rw [packetsCopy_extent]
    by_cases hchain : 1 < pkt.segs.length
    · have hfits := (packetsCopy_bytes _ pkt).1 hbytes hchain
      rw [packetsCopy_chain hchain, (packetsMerge_eq_iff _ _).2 hfits.1]
      rfl
    · rw [(packetsCopy_single _ (not_lt.1 hchain)).1]
      rfl
  constructor
  · intro h
    have hbytes := h.bytes
    have hinside := h.inside
    rw [hpopped] at hbytes hinside
    rw [hwhole hbytes, hroom, hsize] at hinside
    exact ⟨hinside, (packetsCopy_bytes _ pkt).1 hbytes⟩
  · intro h
    have hbytes := (packetsCopy_bytes (sizeAfter queue pkt) pkt).2 h.chain
    refine ⟨?_, by rw [hpopped, hbytes], by rw [hpopped]; rfl⟩
    rw [hpopped, hwhole hbytes, hroom, hsize]
    exact h.all

theorem sizeAfter_reader (isPktCopy : Bool) (pkt : QueuedPacket) :
    sizeAfter (processQueueCreate isPktCopy) pkt = 65536 := by
  have hlt := pkt.dlen_lt
  have hlarge : ¬ (processQueueCreate isPktCopy).psize < pkt.dlen := by
    simp only [processQueueCreate]
    omega
  rw [sizeAfter, if_neg hlarge]
  rfl

theorem reader_fits_iff {isPktCopy : Bool} {pkt : QueuedPacket} (hdlen : pkt.dlen = pkt.total) :
    PopFits (processQueueCreate isPktCopy) pkt ↔
      pkt.total ≤ 65488 ∧ (1 < pkt.segs.length → pkt.total < 65480) := by
  have hlt := pkt.dlen_lt
  have hsize := sizeAfter_reader isPktCopy pkt
  have hsub : sub 64 65536 sizeofPacket = 65480 := rfl
  constructor
  · intro h
    have hall := h.all
    rw [hsize, sizeofPacket, sizeofPointer] at hall
    refine ⟨by omega, fun hchain => ?_⟩
    have hfits := (h.chain hchain).1
    rw [hsize, hsub] at hfits
    omega
  · rintro ⟨hall, hchain⟩
    constructor
    · rw [hsize, sizeofPacket, sizeofPointer]
      omega
    · intro h
      rw [hsize, hsub]
      exact ⟨Or.inl (hchain h), by omega⟩

theorem grown_not_fits {queue : ProcessQueue} {pkt : QueuedPacket} (hdlen : pkt.dlen = pkt.total)
    (hsmall : queue.psize < pkt.dlen) (hchain : 1 < pkt.segs.length) : ¬ PopFits queue pkt := by
  intro h
  have hlt := pkt.dlen_lt
  have hsub : sub 64 (sizeAfter queue pkt) sizeofPacket = pkt.dlen := by
    have hword : pkt.dlen + sizeofPacket < 2 ^ 64 := by
      rw [sizeofPacket]
      omega
    rw [sizeAfter, if_pos hsmall, Word.sub_of_le hword (Nat.le_add_left _ _), Nat.add_sub_cancel]
  have hfits := (h.chain hchain).1
  rw [hsub] at hfits
  omega

def zeroPacket (n : ℕ) (h : n < 2 ^ 16) : QueuedPacket :=
  { packetInit (List.replicate n 0) with
    timestamp := 0
    segs := [List.replicate n 0]
    segs_ne := List.cons_ne_nil _ _
    dataLen := by
      intro seg hseg
      rw [List.mem_singleton.1 hseg, List.length_replicate]
      exact h
    dlen_lt := Nat.mod_lt _ (by norm_num) }

theorem zeroPacket_total (n : ℕ) (h : n < 2 ^ 16) : (zeroPacket n h).total = n := by
  rw [QueuedPacket.total, zeroPacket, List.flatten_singleton, List.length_replicate]

theorem zeroPacket_dlen (n : ℕ) (h : n < 2 ^ 16) : (zeroPacket n h).dlen = n := by
  have hlen : (zeroPacket n h).dlen = (List.replicate n (0 : UInt8)).length % 2 ^ 16 := rfl
  rw [hlen, List.length_replicate, Nat.mod_eq_of_lt h]

theorem small_lt : 100 < 2 ^ 16 := by norm_num

theorem pop_safe_small :
    PopSafe (zeroPacket 100 small_lt)
      (processQueuePop true (processQueueCreate true) (zeroPacket 100 small_lt)) := by
  have hfits : PopFits (processQueueCreate true) (zeroPacket 100 small_lt) := by
    have hdlen := (zeroPacket_dlen 100 small_lt).trans (zeroPacket_total 100 small_lt).symm
    refine (reader_fits_iff hdlen).2 ⟨?_, fun hchain => absurd hchain (by decide)⟩
    rw [zeroPacket_total]
    norm_num
  exact (pop_safe_iff true (processQueueCreate true) (zeroPacket 100 small_lt) (Or.inl rfl)
    (Or.inr rfl)).2 hfits

/-- The largest packet that a reader's buffer is not large enough for by one byte. -/
def longPacket : QueuedPacket := zeroPacket 65489 (by norm_num)

/-- A packet of 65489 bytes is not larger than the buffer, so the buffer stays as it is, and the
copy ends one byte behind it. -/
theorem pop_overruns :
    (processQueuePop true (processQueueCreate true) longPacket).1.allocated = 65544 ∧
      (processQueuePop true (processQueueCreate true) longPacket).2.extent = 65545 ∧
      ¬ PopSafe longPacket (processQueuePop true (processQueueCreate true) longPacket) := by
  obtain ⟨hsize, hpopped⟩ :
      (processQueuePop true (processQueueCreate true) longPacket).1.psize =
          sizeAfter (processQueueCreate true) longPacket ∧
        (processQueuePop true (processQueueCreate true) longPacket).2 =
          packetsCopy (sizeAfter (processQueueCreate true) longPacket) longPacket :=
    processQueuePop_copy (Or.inl rfl) (Or.inr rfl)
  have hallocated :
      (processQueuePop true (processQueueCreate true) longPacket).1.allocated = 65544 := by
    rw [(processQueuePop _ _ _).1.room, hsize, sizeAfter_reader, sizeofPointer]
  have hextent : (processQueuePop true (processQueueCreate true) longPacket).2.extent = 65545 := by
    have htotal : longPacket.segs.flatten.length = 65489 := zeroPacket_total 65489 (by norm_num)
    rw [hpopped, packetsCopy_extent, (packetsCopy_single _ (le_refl 1)).1, htotal, sizeofPacket]
  refine ⟨hallocated, hextent, fun h => ?_⟩
  have hinside := h.inside
  omega

end CloudHands.Pkt
