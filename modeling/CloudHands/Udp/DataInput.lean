import CloudHands.Lib.Guarded
import CloudHands.Tcp.PpDataInput

/-!
# The buffered input of UDP packets

`udp/session/ch_data_input.h`, over the memory it works in. The bytes that a packet leaves are kept
in a block of their own. The next packet is moved behind them in its own buffer where that has the
room; otherwise both are copied to a new block, which the input has to remember as its own.
-/

namespace CloudHands.UdpDataInput

open Lib
open Http (CR LF)
open PpDataInput (dropCR)

/-- `ch_data_buffer_t`, without its field `end`. -/
structure DataBuffer where
  start : Ptr := ⟨0, 0⟩
  pos : Ptr := ⟨0, 0⟩
  last : Ptr := ⟨0, 0⟩
deriving DecidableEq

structure RemainData where
  data : Option Ptr := none
  dlen : ℕ := 0
deriving DecidableEq

/-- `ch_data_input_t`. -/
structure DataInput where
  dbuf : DataBuffer := {}
  remainData : RemainData := {}
  isAlloc : Bool := false
deriving DecidableEq

/-- The difference of two pointers into a block, as a `size_t`. -/
def ptrDiff (p q : Ptr) : ℕ :=
  if q.offset ≤ p.offset then p.offset - q.offset else 2 ^ 64 - (q.offset - p.offset)

/-- `sizeof(void*)`. -/
def ptrSize : ℕ := 8

def readStartInPlace (h : ByteHeap) (din : DataInput) (data start : Ptr) (psize : ℕ) :
    Option (DataInput × ByteHeap) := do
  let remainSize := din.remainData.dlen
  let h ← h.memcpy (start.add remainSize) start psize
  let h ← h.memcpy start data remainSize
  let h ← h.release data
  some ({ din with
    dbuf := ⟨start, start, start.add (psize + remainSize)⟩, remainData := {} }, h)

def readStartAlloc (al : Allocator) (h : ByteHeap) (din : DataInput) (data start : Ptr)
    (psize : ℕ) : Option (DataInput × ByteHeap) := do
  let remainSize := din.remainData.dlen
  let (p, h) := h.malloc al (psize + remainSize + ptrSize)
  let h ← h.memcpy p data remainSize
  let h ← h.memcpy (p.add remainSize) start psize
  let h ← h.release data
  some (⟨⟨p, p, p.add (psize + remainSize)⟩, {}, true⟩, h)

/-- `ch_data_input_read_start`. -/
def readStart (al : Allocator) (h : ByteHeap) (din : DataInput) (start : Ptr) (bsize psize : ℕ) :
    Option (DataInput × ByteHeap) :=
  if din.remainData.dlen ≠ 0 then
    match din.remainData.data with
    | none => none
    | some data =>
      if psize + din.remainData.dlen ≤ bsize then readStartInPlace h din data start psize
      else readStartAlloc al h din data start psize
  else some ({ din with dbuf := ⟨start, start, start.add psize⟩ }, h)

/-- `ch_data_input_read_stop`. -/
def readStop (al : Allocator) (h : ByteHeap) (din : DataInput) : Option (DataInput × ByteHeap) :=
  let dbuf := din.dbuf
  let remainSize := ptrDiff dbuf.last dbuf.pos
  if remainSize ≠ 0 then
    if din.isAlloc then
      (if dbuf.pos ≠ dbuf.start then h.memcpy dbuf.start dbuf.pos remainSize else some h).map
        fun h => (⟨dbuf, ⟨some dbuf.start, remainSize⟩, false⟩, h)
    else
      let (p, h) := h.malloc al (remainSize + ptrSize)
      (h.memcpy p dbuf.pos remainSize).map fun h => (⟨{}, ⟨some p, remainSize⟩, din.isAlloc⟩, h)
  else
    (if din.isAlloc then h.release dbuf.start else some h).map fun h => (⟨{}, {}, din.isAlloc⟩, h)

/-- The types that have a reader `ch_data_input_*_read` of their own. -/
inductive ValueType
  | bool | short | int | long | float | double | ushort | uint | ulong | size | ssize | off
  | int8 | int16 | int32 | int64 | uint8 | uint16 | uint32 | uint64
deriving DecidableEq

def ValueType.width : ValueType → ℕ
  | bool | int8 | uint8 => 1
  | short | ushort | int16 | uint16 => 2
  | int | float | uint | int32 | uint32 => 4
  | long | double | ulong | size | ssize | off | int64 | uint64 => 8

/-- `ch_data_input_read_over`. -/
def readOver (din : DataInput) (sz : ℕ) : Bool :=
  decide (din.dbuf.last.offset < din.dbuf.pos.offset + sz)

/-- `ch_data_input_pos_update`. -/
def posUpdate (din : DataInput) (sz : ℕ) : DataInput :=
  { din with dbuf := { din.dbuf with pos := din.dbuf.pos.add sz } }

def valueRead (h : ByteHeap) (din : DataInput) (t : ValueType) : Option (ℕ × DataInput) :=
  if readOver din t.width then some (0, din)
  else (h.load din.dbuf.pos t.width).map fun bs => (ofBigEndian bs, posUpdate din t.width)

/-- A length of type `t` and the data behind it; the data is not checked. -/
def prefixedRead (h : ByteHeap) (din : DataInput) (t : ValueType) :
    Option ((Option Ptr × ℕ) × DataInput) :=
  if readOver din t.width then some ((none, 0), din)
  else (valueRead h din t).map fun (len, din) => ((some din.dbuf.pos, len), posUpdate din len)

/-- `ch_data_input_bytes_read`. -/
def bytesRead (h : ByteHeap) (din : DataInput) : Option ((Option Ptr × ℕ) × DataInput) :=
  prefixedRead h din .size

/-- `ch_data_input_bstring_read`. -/
def bstringRead (h : ByteHeap) (din : DataInput) : Option ((Option Ptr × ℕ) × DataInput) :=
  prefixedRead h din .uint8

/-- `ch_data_input_line_read`: the search for the line feed at `p` ends with `l_end = pos`. -/
def lineRead (h : ByteHeap) (din : DataInput) : Option ((Option Ptr × ℕ) × DataInput) := do
  let pos := din.dbuf.pos
  let bytes ← h.load pos (din.dbuf.last.offset - pos.offset)
  match bytes.idxOf? LF with
  | none => some ((none, 0), din)
  | some _ =>
    let lEnd := pos
    let rawlineLen := ptrDiff lEnd pos + 1
    let lineLen := rawlineLen - 1
    let lineLen :=
      if 0 < lineLen ∧ h.load ⟨lEnd.block, lEnd.offset - 1⟩ 1 = some [CR] then lineLen - 1
      else lineLen
    some ((some pos, lineLen), posUpdate din rawlineLen)

inductive Read
  | value (t : ValueType)
  | bytes
  | bstring
  | line

inductive Got
  | value (v : ℕ)
  | data (bs : Option (List UInt8))
deriving DecidableEq

def gotData (h : ByteHeap) : (Option Ptr × ℕ) × DataInput → Option (Got × DataInput)
  | ((none, _), din) => some (.data none, din)
  | ((some p, len), din) => (h.load p len).map fun bs => (.data (some bs), din)

def read (h : ByteHeap) (din : DataInput) : Read → Option (Got × DataInput)
  | .value t => (valueRead h din t).map fun (v, din) => (.value v, din)
  | .bytes => (bytesRead h din).bind (gotData h)
  | .bstring => (bstringRead h din).bind (gotData h)
  | .line => (lineRead h din).bind (gotData h)

inductive Op
  | start (packet room : List UInt8)
  | read (r : Read)
  | stop

/-- `packet` is the buffer of the caller while a packet is read. -/
structure World where
  heap : ByteHeap
  din : DataInput := {}
  packet : Option Ptr := none
  got : List Got := []

/-- A packet comes in a block of the caller's that has `room` behind it; the caller gives the block
back when the packet has been read. -/
def World.step (al : Allocator) (w : World) : Op → Option World
  | .start packet room =>
    let buf : Ptr := ⟨w.heap.next, 0⟩
    (readStart al (w.heap.alloc (packet ++ room)) w.din buf (packet ++ room).length
      packet.length).map fun (din, h) => { w with heap := h, din := din, packet := some buf }
  | .read r => (read w.heap w.din r).map fun (got, din) =>
      { w with din := din, got := w.got ++ [got] }
  | .stop => do
    let buf ← w.packet
    let (din, h) ← readStop al w.heap w.din
    let h ← h.release buf
    some { w with heap := h, din := din, packet := none }

def World.Allows (w : World) : Op → Prop
  | .start _ _ => w.packet = none
  | .read _ | .stop => w.packet.isSome

def World.unread (w : World) : Option (List UInt8) :=
  match w.packet with
  | some _ => w.heap.load w.din.dbuf.pos (ptrDiff w.din.dbuf.last w.din.dbuf.pos)
  | none =>
    if w.din.remainData.dlen = 0 then some []
    else w.din.remainData.data.bind fun p => w.heap.load p w.din.remainData.dlen

/-- A length of `n` bytes and the data behind it: the data, and the bytes that are taken. -/
def prefixed (n : ℕ) (bytes : List UInt8) : Got × ℕ :=
  if bytes.length < n then (.data none, 0)
  else
    let len := ofBigEndian (bytes.take n)
    (.data (some ((bytes.drop n).take len)), n + len)

/-- A line up to its line feed, and the bytes that are taken. -/
def firstLine (bytes : List UInt8) : Got × ℕ :=
  match bytes.idxOf? LF with
  | none => (.data none, 0)
  | some n => (.data (some (dropCR (bytes.take n))), n + 1)

/-- The result of a read at the front of `bytes`, and how many bytes it takes. -/
def Read.result (bytes : List UInt8) : Read → Got × ℕ
  | .value t =>
    if bytes.length < t.width then (.value 0, 0)
    else (.value (ofBigEndian (bytes.take t.width)), t.width)
  | .bytes => prefixed 8 bytes
  | .bstring => prefixed 1 bytes
  | .line => firstLine bytes

structure Reader where
  unread : List UInt8 := []
  got : List Got := []

def Reader.step (s : Reader) : Op → Reader
  | .start packet _ => { s with unread := s.unread ++ packet }
  | .read r => ⟨s.unread.drop (r.result s.unread).2, s.got ++ [(r.result s.unread).1]⟩
  | .stop => s

def Announced (n : ℕ) (bytes : List UInt8) : Prop :=
  n ≤ bytes.length → n + ofBigEndian (bytes.take n) ≤ bytes.length

def LineOk (bytes : List UInt8) : Prop := LF ∈ bytes → bytes.head? = some LF

def Read.Sound (bytes : List UInt8) : Read → Prop
  | .value _ => True
  | .bytes => Announced 8 bytes
  | .bstring => Announced 1 bytes
  | .line => LineOk bytes

/-- A packet that is moved up does not overlap its old place, an announced length is there, a line
is empty, a block that the input takes for its own is not the caller's, and a rest that is moved
down does not overlap its old place. -/
def World.Sound (w : World) : Op → Prop
  | .start packet room =>
    w.din.remainData.dlen = 0 ∨ room.length < w.din.remainData.dlen ∨
      packet.length ≤ w.din.remainData.dlen
  | .read r => ∀ bytes ∈ w.unread, r.Sound bytes
  | .stop =>
    w.din.isAlloc = true →
      w.packet.map Ptr.block ≠ some w.din.dbuf.start.block ∧
      (w.din.dbuf.pos = w.din.dbuf.start ∨
        ptrDiff w.din.dbuf.last w.din.dbuf.pos ≤ ptrDiff w.din.dbuf.pos w.din.dbuf.start)

instance (n : ℕ) (bytes : List UInt8) : Decidable (Announced n bytes) :=
  inferInstanceAs (Decidable (_ → _))

instance (bytes : List UInt8) : Decidable (LineOk bytes) := inferInstanceAs (Decidable (_ → _))

instance (bytes : List UInt8) : ∀ r : Read, Decidable (r.Sound bytes)
  | .value _ => inferInstanceAs (Decidable True)
  | .bytes => inferInstanceAs (Decidable (Announced 8 bytes))
  | .bstring => inferInstanceAs (Decidable (Announced 1 bytes))
  | .line => inferInstanceAs (Decidable (LineOk bytes))

instance (w : World) : ∀ op, Decidable (w.Allows op)
  | .start _ _ => inferInstanceAs (Decidable (w.packet = none))
  | .read _ | .stop => inferInstanceAs (Decidable (w.packet.isSome = true))

instance (w : World) : ∀ op, Decidable (w.Sound op)
  | .start _ _ => inferInstanceAs (Decidable (_ ∨ _))
  | .read r => inferInstanceAs (Decidable (∀ bytes ∈ w.unread, r.Sound bytes))
  | .stop => inferInstanceAs (Decidable (_ → _))

structure View (h : ByteHeap) (din : DataInput) (bytes : List UInt8) : Prop where
  last : din.dbuf.last = din.dbuf.pos.add bytes.length
  load : h.load din.dbuf.pos bytes.length = some bytes

variable {h : ByteHeap} {din : DataInput} {bytes : List UInt8}

@[simp] theorem ptrDiff_add (p : Ptr) (n : ℕ) : ptrDiff (p.add n) p = n := by
  rw [ptrDiff, Ptr.offset_add, if_pos (Nat.le_add_right _ _), Nat.add_sub_cancel_left]

theorem View.readOver (hview : View h din bytes) (sz : ℕ) :
    readOver din sz = decide (bytes.length < sz) := by
  rw [UdpDataInput.readOver, hview.last, Ptr.offset_add]
  exact decide_eq_decide.2 (Nat.add_lt_add_iff_left)

theorem View.posUpdate (hview : View h din bytes) {n : ℕ} (hn : n ≤ bytes.length) :
    View h (posUpdate din n) (bytes.drop n) := by
  have hlen : (bytes.drop n).length = bytes.length - n := List.length_drop
  refine ⟨?_, ?_⟩
  · rw [UdpDataInput.posUpdate, hview.last, hlen, Ptr.add_add, Nat.add_sub_cancel' hn]
  · have hload := ByteHeap.load_add hview.load (i := n) (k := bytes.length - n) (by omega)
    rw [hlen]
    rwa [List.take_of_length_le hlen.le] at hload

theorem View.load_take (hview : View h din bytes) {n : ℕ} (hn : n ≤ bytes.length) :
    h.load din.dbuf.pos n = some (bytes.take n) := by
  have hload := ByteHeap.load_add hview.load (i := 0) (k := n) (by omega)
  rwa [List.drop_zero] at hload

theorem valueRead_eq (hview : View h din bytes) (t : ValueType) :
    valueRead h din t = if bytes.length < t.width then some (0, din)
      else some (ofBigEndian (bytes.take t.width), posUpdate din t.width) := by
  rw [valueRead, hview.readOver]
  by_cases hshort : bytes.length < t.width
  · rw [if_pos (decide_eq_true hshort), if_pos hshort]
  · rw [if_neg (by simpa using hshort), if_neg hshort, hview.load_take (not_lt.1 hshort),
      Option.map_some]

theorem prefixedRead_eq (hview : View h din bytes) {t : ValueType}
    (hannounced : Announced t.width bytes) :
    (prefixedRead h din t).bind (gotData h) =
      some ((prefixed t.width bytes).1, posUpdate din (prefixed t.width bytes).2) := by
  rw [prefixedRead, hview.readOver, prefixed]
  by_cases hshort : bytes.length < t.width
  · rw [if_pos (decide_eq_true hshort), if_pos hshort]
    rfl
  · have hle := not_lt.1 hshort
    have hfits := hannounced hle
    set len := ofBigEndian (bytes.take t.width) with hlen
    have hdata := ByteHeap.load_add hview.load hfits
    rw [if_neg (by simpa using hshort), valueRead_eq hview, if_neg hshort, if_neg hshort, ← hlen]
    simp only [Option.map_some, Option.bind_some, gotData, posUpdate, hdata, Ptr.add_add]

theorem lineRead_eq (hview : View h din bytes) :
    (lineRead h din).bind (gotData h) =
      some (if LF ∈ bytes then (.data (some []), posUpdate din 1) else (.data none, din)) := by
  have hlen : din.dbuf.last.offset - din.dbuf.pos.offset = bytes.length := by
    rw [hview.last, Ptr.offset_add, Nat.add_sub_cancel_left]
  rcases line_or_not_mem LF bytes with ⟨text, rest, hlf, hbytes⟩ | hlf
  · have hmem : LF ∈ bytes := by simp [hbytes]
    have hfind : bytes.idxOf? LF = some text.length := by rw [hbytes, idxOf?_line hlf]
    have hself : ptrDiff din.dbuf.pos din.dbuf.pos = 0 := by simp [ptrDiff]
    have hempty := hview.load_take (Nat.zero_le _)
    simp only [lineRead, hlen, hview.load, hfind, hself, hempty, if_pos hmem, gotData,
      Option.bind_eq_bind, Option.bind_some, Option.map_some, zero_add, Nat.sub_self, lt_irrefl,
      false_and, if_false, List.take_zero]
  · have hfind : bytes.idxOf? LF = none := List.idxOf?_eq_none_iff.2 hlf
    simp only [lineRead, hlen, hview.load, hfind, if_neg hlf, gotData, Option.bind_eq_bind,
      Option.bind_some]

theorem firstLine_of_not_mem (hlf : LF ∉ bytes) : firstLine bytes = (.data none, 0) := by
  rw [firstLine, List.idxOf?_eq_none_iff.2 hlf]

theorem firstLine_line {text : List UInt8} (hlf : LF ∉ text) (rest : List UInt8) :
    firstLine (text ++ LF :: rest) = (.data (some (dropCR text)), text.length + 1) := by
  rw [firstLine, idxOf?_line hlf]
  simp only [List.take_left]

theorem read_line_iff (hview : View h din bytes) :
    read h din .line = some ((firstLine bytes).1, posUpdate din (firstLine bytes).2) ↔
      LineOk bytes := by
  rw [read, lineRead_eq hview, LineOk, Option.some.injEq]
  rcases line_or_not_mem LF bytes with ⟨text, rest, hlf, rfl⟩ | hlf
  · have hmem : LF ∈ text ++ LF :: rest := by simp
    rw [if_pos hmem, firstLine_line hlf]
    cases text with
    | nil => simp [dropCR]
    | cons b text =>
      have hb : b ≠ LF := fun heq => hlf (by simp [heq])
      have hhead : ((b :: text) ++ LF :: rest).head? ≠ some LF := by
        simpa using hb
      refine ⟨fun heq => ?_, fun hhead' => absurd (hhead' hmem) hhead⟩
      have hpos := congrArg (fun r => r.2.dbuf.pos.offset) heq
      simp [posUpdate] at hpos
  · rw [if_neg hlf, firstLine_of_not_mem hlf]
    exact ⟨fun _ hmem => absurd hmem hlf, fun _ => rfl⟩

theorem read_eq (hview : View h din bytes) {r : Read} (hsound : r.Sound bytes) :
    read h din r = some ((r.result bytes).1, posUpdate din (r.result bytes).2) := by
  cases r with
  | value t =>
    rw [read, valueRead_eq hview, Read.result]
    split <;> rfl
  | bytes => exact prefixedRead_eq (t := .size) hview hsound
  | bstring => exact prefixedRead_eq (t := .uint8) hview hsound
  | line => exact (read_line_iff hview).2 hsound

theorem prefixed_le {n : ℕ} (hannounced : Announced n bytes) :
    (prefixed n bytes).2 ≤ bytes.length := by
  rw [prefixed]
  split
  · exact Nat.zero_le _
  · exact hannounced (by omega)

theorem result_le {r : Read} (hsound : r.Sound bytes) : (r.result bytes).2 ≤ bytes.length := by
  cases r with
  | value t =>
    rw [Read.result]
    split
    · exact Nat.zero_le _
    · exact not_lt.1 ‹_›
  | bytes => exact prefixed_le hsound
  | bstring => exact prefixed_le hsound
  | line =>
    rw [Read.result]
    rcases line_or_not_mem LF bytes with ⟨text, rest, hlf, rfl⟩ | hlf
    · rw [firstLine_line hlf, List.length_append, List.length_cons]
      omega
    · rw [firstLine_of_not_mem hlf]
      exact Nat.zero_le _

/-- `bytes` are read, while a packet lies in the block `d`. -/
structure Opened (h : ByteHeap) (d : ℕ) (din : DataInput) (bytes : List UInt8) : Prop
    extends View h din bytes where
  packet : h.Room ⟨d, 0⟩ 0
  start : din.dbuf.start.offset = 0
  block : din.dbuf.pos.block = din.dbuf.start.block

/-- `held` waits for the next packet. -/
structure Closed (h : ByteHeap) (din : DataInput) (held : List UInt8) : Prop where
  dlen : din.remainData.dlen = held.length
  kept : held ≠ [] →
    ∃ a, din.remainData.data = some a ∧ a.offset = 0 ∧ h.load a held.length = some held

variable {h' : ByteHeap} {held packet room : List UInt8} {d : ℕ} {al : Allocator}

theorem Closed.congr (hclosed : Closed h din held)
    (hload : ∀ a n, din.remainData.data = some a → h.load a n = some held →
      h'.load a n = some held) : Closed h' din held where
  dlen := hclosed.dlen
  kept hne := by
    obtain ⟨a, ha, hstart, hheld⟩ := hclosed.kept hne
    exact ⟨a, ha, hstart, hload a _ ha hheld⟩

theorem packet_load (hbuf : h.load ⟨d, 0⟩ (packet ++ room).length = some (packet ++ room)) :
    h.load ⟨d, 0⟩ packet.length = some packet := by
  have hload := ByteHeap.load_add hbuf (i := 0) (k := packet.length)
    (by rw [List.length_append]; omega)
  rwa [List.drop_zero, List.take_left] at hload

theorem readStartInPlace_ok {a : Ptr} (hdlen : din.remainData.dlen = held.length)
    (hkept : h.load a held.length = some held) (hastart : a.offset = 0) (hne : a.block ≠ d)
    (hbuf : h.load ⟨d, 0⟩ (packet ++ room).length = some (packet ++ room))
    (hroom : held.length ≤ room.length) (hclear : packet.length ≤ held.length) :
    ∃ din' h', readStartInPlace h din a ⟨d, 0⟩ packet.length = some (din', h') ∧
      Opened h' d din' (held ++ packet) := by
  have hbufRoom := ByteHeap.room_of_load hbuf
  have hroom₁ : h.Room ((⟨d, 0⟩ : Ptr).add held.length) packet.length :=
    (hbufRoom.mono (by rw [List.length_append]; omega)).add
  have hclear₁ : ByteHeap.Clear ((⟨d, 0⟩ : Ptr).add held.length) packet.length ⟨d, 0⟩
      packet.length := .inr (.inr (by simpa using hclear))
  obtain ⟨h₁, hcopy₁, hstored₁⟩ := ByteHeap.memcpy_ok hclear₁ (packet_load hbuf) hroom₁
  have hkept₁ : h₁.load a held.length = some held := by
    rw [hstored₁.keep a _ (.inl hne.symm), hkept]
  have hroom₂ : h₁.Room ⟨d, 0⟩ held.length :=
    hstored₁.room (hbufRoom.mono (by rw [List.length_append]; omega))
  obtain ⟨h₂, hcopy₂, hstored₂⟩ := ByteHeap.memcpy_ok (.inl hne.symm) hkept₁ hroom₂
  have hpacket : h₂.load ((⟨d, 0⟩ : Ptr).add held.length) packet.length = some packet := by
    rw [hstored₂.keep _ _ (.inr (.inl (by simp))), hstored₁.load]
  have haroom : h₂.Room a held.length := hstored₂.room (ByteHeap.room_of_load hkept₁)
  obtain ⟨h₃, hrelease, hcell, -⟩ := ByteHeap.release_ok haroom hastart
  have hload : h₃.load ⟨d, 0⟩ (held ++ packet).length = some (held ++ packet) := by
    rw [ByteHeap.load_congr (hcell d hne.symm), List.length_append]
    exact ByteHeap.load_append hstored₂.load hpacket
  have hstart : readStartInPlace h din a ⟨d, 0⟩ packet.length = some ({ din with
      dbuf := ⟨⟨d, 0⟩, ⟨d, 0⟩, (⟨d, 0⟩ : Ptr).add (packet.length + held.length)⟩,
      remainData := {} }, h₃) := by
    simp only [readStartInPlace, hdlen, hcopy₁, hcopy₂, hrelease, Option.bind_eq_bind,
      Option.bind_some]
  refine ⟨_, h₃, hstart, ⟨?_, hload⟩, (ByteHeap.room_of_load hload).mono (Nat.zero_le _), rfl, rfl⟩
  rw [List.length_append, Nat.add_comm]

theorem readStartAlloc_ok {a : Ptr} (hdlen : din.remainData.dlen = held.length)
    (hkept : h.load a held.length = some held) (hastart : a.offset = 0) (hne : a.block ≠ d)
    (hbuf : h.load ⟨d, 0⟩ packet.length = some packet) :
    ∃ din' h', readStartAlloc al h din a ⟨d, 0⟩ packet.length = some (din', h') ∧
      Opened h' d din' (held ++ packet) := by
  set n := packet.length + held.length + ptrSize with hn
  set h₁ : ByteHeap := h.alloc (al.fresh h n) with hh₁
  have hnew : h₁.Room ⟨h.next, 0⟩ n := ByteHeap.room_fresh al h n
  have hafresh := (ByteHeap.room_of_load hkept).lt_next
  have hdfresh := (ByteHeap.room_of_load hbuf).lt_next
  have hkept₁ : h₁.load a held.length = some held := ByteHeap.load_alloc hkept _
  have hclear₁ : ByteHeap.Clear ⟨h.next, 0⟩ held.length a held.length := .inl hafresh.ne'
  obtain ⟨h₂, hcopy₁, hstored₁⟩ := ByteHeap.memcpy_ok hclear₁ hkept₁ (hnew.mono (by omega))
  have hbuf₂ : h₂.load ⟨d, 0⟩ packet.length = some packet := by
    rw [hstored₁.keep _ _ (.inl hdfresh.ne'), ByteHeap.load_alloc hbuf]
  have hroom₂ : h₂.Room ((⟨h.next, 0⟩ : Ptr).add held.length) packet.length :=
    hstored₁.room (ByteHeap.Room.add (hnew.mono (by omega)))
  have hclear₂ : ByteHeap.Clear ((⟨h.next, 0⟩ : Ptr).add held.length) packet.length ⟨d, 0⟩
      packet.length := .inl hdfresh.ne'
  obtain ⟨h₃, hcopy₂, hstored₂⟩ := ByteHeap.memcpy_ok hclear₂ hbuf₂ hroom₂
  have hfront : h₃.load ⟨h.next, 0⟩ held.length = some held := by
    rw [hstored₂.keep _ _ (.inr (.inr (by simp))), hstored₁.load]
  have hsize : h₃.size = h₁.size := hstored₂.size.trans hstored₁.size
  have haroom : h₃.Room a held.length :=
    ((ByteHeap.room_of_load hkept).alloc _).congr (congrFun hsize _)
  obtain ⟨h₄, hrelease, hcell, -⟩ := ByteHeap.release_ok haroom hastart
  have hload : h₄.load ⟨h.next, 0⟩ (held ++ packet).length = some (held ++ packet) := by
    rw [ByteHeap.load_congr (hcell _ hafresh.ne'), List.length_append]
    exact ByteHeap.load_append hfront hstored₂.load
  have hroom₃ : h₃.Room ⟨d, 0⟩ 0 :=
    hstored₂.room ((ByteHeap.room_of_load hbuf₂).mono (Nat.zero_le _))
  have hstart : readStartAlloc al h din a ⟨d, 0⟩ packet.length = some
      (⟨⟨⟨h.next, 0⟩, ⟨h.next, 0⟩, (⟨h.next, 0⟩ : Ptr).add (packet.length + held.length)⟩, {},
        true⟩,
        h₄) := by
    simp only [readStartAlloc, hdlen, ByteHeap.malloc, ← hn, ← hh₁, hcopy₁, hcopy₂, hrelease,
      Option.bind_eq_bind, Option.bind_some]
  refine ⟨_, h₄, hstart, ⟨?_, hload⟩, hroom₃.congr (ByteHeap.size_congr (hcell d hne.symm)), rfl,
    rfl⟩
  rw [List.length_append, Nat.add_comm]

theorem readStart_ok (al : Allocator) (hclosed : Closed h din held)
    (hsound : din.remainData.dlen = 0 ∨ room.length < din.remainData.dlen ∨
      packet.length ≤ din.remainData.dlen) :
    ∃ din' h', readStart al (h.alloc (packet ++ room)) din ⟨h.next, 0⟩ (packet ++ room).length
        packet.length = some (din', h') ∧ Opened h' h.next din' (held ++ packet) := by
  have hbuf := ByteHeap.load_alloc_self h (packet ++ room)
  have hdlen := hclosed.dlen
  by_cases hempty : held = []
  · subst hempty
    refine ⟨_, _, if_neg (by simpa using hdlen), ⟨rfl, packet_load hbuf⟩,
      (ByteHeap.room_of_load hbuf).mono (Nat.zero_le _), rfl, rfl⟩
  · obtain ⟨a, ha, hastart, hkept⟩ := hclosed.kept hempty
    have hne := (ByteHeap.room_of_load hkept).lt_next.ne
    have hpos : din.remainData.dlen ≠ 0 := by
      rw [hdlen]
      exact fun hzero => hempty (List.length_eq_zero_iff.1 hzero)
    have hkept' := ByteHeap.load_alloc hkept (packet ++ room)
    rw [readStart, if_pos hpos, ha]
    by_cases hfits : packet.length + din.remainData.dlen ≤ (packet ++ room).length
    · rw [List.length_append] at hfits
      simp only [List.length_append, if_pos hfits]
      refine readStartInPlace_ok hdlen hkept' hastart hne hbuf (by omega) (by omega)
    · simp only [if_neg hfits]
      exact readStartAlloc_ok hdlen hkept' hastart hne (packet_load hbuf)

theorem readStop_ok (al : Allocator) (hopened : Opened h d din bytes)
    (hsound : din.isAlloc = true → d ≠ din.dbuf.start.block ∧ (din.dbuf.pos = din.dbuf.start ∨
      ptrDiff din.dbuf.last din.dbuf.pos ≤ ptrDiff din.dbuf.pos din.dbuf.start)) :
    ∃ din' h', readStop al h din = some (din', h') ∧ h'.Room ⟨d, 0⟩ 0 ∧ Closed h' din' bytes ∧
      ∀ a, din'.remainData.data = some a → a.block ≠ d := by
  have hrest : ptrDiff din.dbuf.last din.dbuf.pos = bytes.length := by
    rw [hopened.last, ptrDiff_add]
  have hview := ByteHeap.room_of_load hopened.load
  have hstartRoom : h.Room din.dbuf.start bytes.length := by
    obtain ⟨k, hk, hfits⟩ := hview
    exact ⟨k, hopened.block ▸ hk, by rw [hopened.start]; omega⟩
  rw [readStop, hrest]
  by_cases hempty : bytes.length = 0
  · rw [if_neg (not_not_intro hempty)]
    have hclosed : ∀ h' : ByteHeap, Closed h' ⟨{}, {}, din.isAlloc⟩ bytes := fun h' =>
      ⟨hempty.symm, fun hne => absurd (List.length_eq_zero_iff.1 hempty) hne⟩
    cases halloc : din.isAlloc with
    | false => exact ⟨_, h, rfl, hopened.packet, halloc ▸ hclosed h, fun _ ha => by cases ha⟩
    | true =>
      obtain ⟨h', hrelease, hcell, -⟩ := ByteHeap.release_ok hstartRoom hopened.start
      refine ⟨_, h', by rw [if_pos rfl, hrelease, Option.map_some], ?_, halloc ▸ hclosed h',
        fun _ ha => by cases ha⟩
      exact hopened.packet.congr (ByteHeap.size_congr (hcell d (hsound halloc).1))
  rw [if_pos hempty]
  cases halloc : din.isAlloc with
  | false =>
    set n := bytes.length + ptrSize with hn
    set h₁ : ByteHeap := h.alloc (al.fresh h n) with hh₁
    have hnew : h₁.Room ⟨h.next, 0⟩ n := ByteHeap.room_fresh al h n
    have hload₁ : h₁.load din.dbuf.pos bytes.length = some bytes :=
      ByteHeap.load_alloc hopened.load _
    have hclear : ByteHeap.Clear ⟨h.next, 0⟩ bytes.length din.dbuf.pos bytes.length :=
      .inl hview.lt_next.ne'
    obtain ⟨h₂, hcopy, hstored⟩ := ByteHeap.memcpy_ok hclear hload₁ (hnew.mono (by omega))
    refine ⟨⟨{}, ⟨some ⟨h.next, 0⟩, bytes.length⟩, false⟩, h₂, ?_,
      hstored.room (hopened.packet.alloc _), ⟨rfl, fun _ => ⟨_, rfl, rfl, hstored.load⟩⟩, ?_⟩
    · simp only [ByteHeap.malloc, ← hh₁, hcopy, Bool.false_eq_true, if_false, Option.map_some]
    · rintro _ ⟨⟩
      exact hopened.packet.lt_next.ne'
  | true =>
    obtain ⟨hown, hmove⟩ := hsound halloc
    obtain ⟨h', hmoved, hroom, hload⟩ : ∃ h',
        (if din.dbuf.pos ≠ din.dbuf.start then h.memcpy din.dbuf.start din.dbuf.pos bytes.length
          else some h) = some h' ∧ h'.Room ⟨d, 0⟩ 0 ∧
        h'.load din.dbuf.start bytes.length = some bytes := by
      by_cases heq : din.dbuf.pos = din.dbuf.start
      · exact ⟨h, if_neg (not_not_intro heq), hopened.packet, heq ▸ hopened.load⟩
      · have hle : bytes.length ≤ din.dbuf.pos.offset := by
          have hle := hmove.resolve_left heq
          rwa [hrest, ptrDiff, hopened.start, if_pos (Nat.zero_le _), Nat.sub_zero] at hle
        have hclear : ByteHeap.Clear din.dbuf.start bytes.length din.dbuf.pos bytes.length :=
          .inr (.inl (by rwa [hopened.start, Nat.zero_add]))
        obtain ⟨h', hcopy, hstored⟩ := ByteHeap.memcpy_ok hclear hopened.load hstartRoom
        exact ⟨h', by rw [if_pos heq, hcopy], hstored.room hopened.packet, hstored.load⟩
    refine ⟨⟨din.dbuf, ⟨some din.dbuf.start, bytes.length⟩, false⟩, h', ?_, hroom,
      ⟨rfl, fun _ => ⟨_, rfl, hopened.start, hload⟩⟩, ?_⟩
    · rw [if_pos rfl, hmoved, Option.map_some]
    · rintro _ ⟨⟩
      exact hown.symm

def World.Agrees (w : World) (s : Reader) : Prop :=
  w.got = s.got ∧
    match w.packet with
    | some buf => buf.offset = 0 ∧ Opened w.heap buf.block w.din s.unread
    | none => Closed w.heap w.din s.unread

theorem World.Agrees.unread {w : World} {s : Reader} (hagrees : w.Agrees s) :
    w.unread = some s.unread := by
  obtain ⟨-, hinput⟩ := hagrees
  rw [World.unread]
  cases hpacket : w.packet with
  | some buf =>
    simp only [hpacket] at hinput
    rw [hinput.2.last, ptrDiff_add, hinput.2.load]
  | none =>
    simp only [hpacket] at hinput
    rw [hinput.dlen]
    by_cases hempty : s.unread = []
    · rw [hempty, List.length_nil, if_pos rfl]
    · obtain ⟨a, ha, -, hkept⟩ := hinput.kept hempty
      rw [if_neg (fun hzero => hempty (List.length_eq_zero_iff.1 hzero)), ha, Option.bind_some,
        hkept]

theorem step_agrees {w : World} {s : Reader} {op : Op} (hagrees : w.Agrees s)
    (hop : w.Allows op ∧ w.Sound op) :
    ∃ w', w.step al op = some w' ∧ w'.Agrees (s.step op) := by
  obtain ⟨hallows, hsound⟩ := hop
  have hunread := hagrees.unread
  obtain ⟨hgot, hinput⟩ := hagrees
  cases op with
  | start packet room =>
    rw [show w.packet = none from hallows] at hinput
    obtain ⟨din, h', hstart, hopened⟩ := readStart_ok al hinput hsound
    refine ⟨{ w with heap := h', din := din, packet := some ⟨w.heap.next, 0⟩ }, ?_, hgot, rfl,
      hopened⟩
    rw [World.step, hstart, Option.map_some]
  | read r =>
    obtain ⟨buf, hbuf⟩ := Option.isSome_iff_exists.1 hallows
    have hr : r.Sound s.unread := hsound s.unread hunread
    rw [hbuf] at hinput
    obtain ⟨hzero, hview, hpacket, hstart, hblock⟩ := hinput
    refine ⟨_, by rw [World.step, read_eq hview hr, Option.map_some], ?_, ?_⟩
    · rw [hgot, Reader.step]
    · simp only [hbuf]
      exact ⟨hzero, hview.posUpdate (result_le hr), hpacket, hstart, hblock⟩
  | stop =>
    obtain ⟨⟨d, o⟩, hbuf⟩ := Option.isSome_iff_exists.1 hallows
    rw [hbuf] at hinput
    obtain ⟨rfl, hopened⟩ := hinput
    obtain ⟨din, h₁, hstop, hroom, hclosed, hne⟩ := readStop_ok al hopened fun halloc =>
      ⟨fun hblock => (hsound halloc).1 (by rw [hbuf, ← hblock]; rfl), (hsound halloc).2⟩
    obtain ⟨h₂, hrelease, hcell, -⟩ := ByteHeap.release_ok hroom rfl
    refine ⟨{ w with heap := h₂, din := din, packet := none }, ?_, hgot, ?_⟩
    · simp only [World.step, hbuf, hstop, hrelease, Option.bind_eq_bind, Option.bind_some]
    · exact hclosed.congr fun a n ha hload => by
        rw [ByteHeap.load_congr (hcell _ (hne a ha)), hload]

/-- In a run whose steps meet the condition the reader sees what was left of the packets before it
and the new packet, and its reads take their results from there; and a line is read as it should
be exactly where it is empty or not complete. -/
theorem reads_of_sound (al : Allocator) (h : ByteHeap) :
    (∀ ops, Follows (World.step al) (fun w op => w.Allows op ∧ w.Sound op) ⟨h, {}, none, []⟩ ops →
      ∃ w, runFrom (World.step al) ⟨h, {}, none, []⟩ ops = some w ∧
        w.unread = some (ops.foldl Reader.step {}).unread ∧
        w.got = (ops.foldl Reader.step {}).got) ∧
    ∀ h din bytes, View h din bytes →
      (read h din .line = some ((firstLine bytes).1, posUpdate din (firstLine bytes).2) ↔
        LineOk bytes) := by
  refine ⟨fun ops hops => ?_, fun h din bytes hview => read_line_iff hview⟩
  have hinit : World.Agrees ⟨h, {}, none, []⟩ {} := ⟨rfl, rfl, fun hne => absurd rfl hne⟩
  obtain ⟨w, hrun, hagrees⟩ := hops.simulates World.Agrees hinit step_agrees
  exact ⟨w, hrun, hagrees.unread, hagrees.1⟩

def leftover : List Op :=
  [.start [97] [], .stop, .start [10, 98] [], .read (.value .uint8), .read .line, .stop,
    .start [99] [0, 0, 0]]

theorem leftover_reads :
    (∃ w, runFrom (World.step Allocator.zeroed) ⟨Arena.empty, {}, none, []⟩ leftover = some w ∧
      w.unread = some [98, 99] ∧ w.got = [.value 97, .data (some [])]) ∧
    ¬ LineOk [97, 98, 10] := by
  have hsound : Follows (World.step Allocator.zeroed) (fun w op => w.Allows op ∧ w.Sound op)
      ⟨Arena.empty, {}, none, []⟩ leftover := by
    decide +kernel
  obtain ⟨w, hrun, hunread, hgot⟩ := (reads_of_sound Allocator.zeroed Arena.empty).1 leftover hsound
  refine ⟨⟨w, hrun, hunread, hgot⟩, fun hok => ?_⟩
  have hview : View (Arena.empty.alloc [97, 98, 10])
      ⟨⟨⟨0, 0⟩, ⟨0, 0⟩, ⟨0, 3⟩⟩, {}, false⟩ [97, 98, 10] := ⟨rfl, rfl⟩
  have hread := ((reads_of_sound Allocator.zeroed Arena.empty).2 _ _ _ hview).2 hok
  exact absurd hread (by decide +kernel)

/-- The line `ab` is read as an empty line. -/
theorem line_not_read :
    ¬ ∀ (al : Allocator) (h : ByteHeap) (ops : List Op),
      Follows (World.step al) World.Allows ⟨h, {}, none, []⟩ ops →
      ∃ w, runFrom (World.step al) ⟨h, {}, none, []⟩ ops = some w ∧
        w.unread = some (ops.foldl Reader.step {}).unread ∧
        w.got = (ops.foldl Reader.step {}).got := by
  intro hclaim
  obtain ⟨w, hrun, -, hgot⟩ :=
    hclaim Allocator.zeroed Arena.empty [.start [97, 98, 10] [], .read .line]
    (by decide +kernel)
  have hgot' : (runFrom (World.step Allocator.zeroed) ⟨Arena.empty, {}, none, []⟩
      [.start [97, 98, 10] [], .read .line]).map World.got = some [.data (some [])] := by
    decide +kernel
  rw [hrun, Option.map_some, hgot] at hgot'
  exact absurd hgot' (by decide +kernel)

end CloudHands.UdpDataInput
