import CloudHands.Http.DataInput
import CloudHands.Lib.ByteHeap
import CloudHands.Lib.Lines

/-!
# The buffered input of a TCP stream

`tcp/session/ch_pp_data_input.h` with `lib/common/ch_buffer.h`, over the memory they work in. The
bytes that a piece leaves are copied into a store of their own, and the next piece is appended to
them in the buffer; without such bytes the piece is read where it lies. A piece is gone when it
has been read.
-/

namespace CloudHands.PpDataInput

open Lib Http

/-- `ch_buffer_t`. -/
structure Buffer where
  bdata : Ptr
  bCurrentSize : ℕ

def bSizeDefault : ℕ := 64 * 1024
def bSizeExt : ℕ := 32

/-- `ch_buffer_init2`. -/
def bufferInit (al : Allocator) (h : ByteHeap) (bsize : ℕ) : Buffer × ByteHeap :=
  let bsize := if bsize = 0 then bSizeDefault else bsize
  let (p, h) := h.malloc al (bsize + bSizeExt)
  (⟨p, bsize⟩, h)

def bufferUpdate (al : Allocator) (h : ByteHeap) (bf : Buffer) (nsize : ℕ) :
    Option (Buffer × ByteHeap) :=
  (h.release bf.bdata).map fun h =>
    let (p, h) := h.malloc al (nsize + bSizeExt)
    (⟨p, nsize⟩, h)

/-- The buffer with room for `nsize` bytes, which `ch_buffer_need_update` asks for. -/
def bufferRoom (al : Allocator) (h : ByteHeap) (bf : Buffer) (nsize : ℕ) :
    Option (Buffer × ByteHeap) :=
  if bf.bCurrentSize < nsize then bufferUpdate al h bf nsize else some (bf, h)

structure RemainData where
  data : Option Ptr := none
  dlen : ℕ := 0
  addr : Option Ptr := none
  addrEnd : Ptr := ⟨0, 0⟩

/-- `ch_pp_data_input_t`; `last` is its field `end`. The three pointers are set by every
`ch_pp_din_read_prefare`. -/
structure DataInput where
  gBuffer : Buffer
  base : Ptr := ⟨0, 0⟩
  pos : Ptr := ⟨0, 0⟩
  last : Ptr := ⟨0, 0⟩
  remainData : RemainData := {}

/-- `ch_pp_din_rdlen`. -/
def DataInput.rdlen (din : DataInput) : ℕ :=
  if din.pos.offset < din.last.offset then din.last.offset - din.pos.offset else 0

/-- `ch_pp_din_need_alloc_new_store`. -/
def needAllocNewStore (r : RemainData) (sz : ℕ) : Bool :=
  match r.addr with
  | none => true
  | some addr => decide (r.addrEnd.offset < addr.offset + sz)

/-- `sizeof(unsigned char*)`. -/
def safeSize : ℕ := 8

/-- `ch_pp_din_read_prefare`. -/
def readPrefare (al : Allocator) (h : ByteHeap) (din : DataInput) (data : Ptr) (dlen : ℕ) :
    Option (DataInput × ByteHeap) :=
  let rdlen := din.remainData.dlen
  let here : DataInput := { din with base := data, pos := data, last := data.add dlen }
  match din.remainData.data with
  | none => some (here, h)
  | some rdata =>
    if rdlen = 0 then some (here, h)
    else do
      let ttsize := rdlen + dlen
      let (bf, h) ← bufferRoom al h din.gBuffer ttsize
      let h ← h.memcpy bf.bdata rdata rdlen
      let h ← h.memcpy (bf.bdata.add rdlen) data dlen
      some
        ({ din with
            gBuffer := bf
            base := bf.bdata
            pos := bf.bdata
            last := bf.bdata.add ttsize
            remainData := { din.remainData with data := none, dlen := 0 } }, h)

/-- The store that `ch_pp_din_read_end` copies `rdlen` bytes to. -/
def remainStore (h : ByteHeap) (r : RemainData) (rdlen : ℕ) : RemainData × ByteHeap :=
  if needAllocNewStore r rdlen then
    let (p, h) := h.calloc (rdlen + safeSize)
    ({ r with addr := some p, addrEnd := p.add rdlen }, h)
  else (r, h)

/-- `ch_pp_din_read_end`. -/
def readEnd (h : ByteHeap) (din : DataInput) : Option (DataInput × ByteHeap) :=
  let rdlen := din.rdlen
  if 0 < rdlen then
    let (r, h) := remainStore h din.remainData rdlen
    match r.addr with
    | none => none
    | some addr =>
      (h.memcpy addr din.pos rdlen).map fun h =>
        ({ din with pos := din.base, remainData := { r with data := some addr, dlen := rdlen } }, h)
  else
    some ({ din with
      pos := din.base, remainData := { din.remainData with data := none, dlen := 0 } }, h)

/-- `ch_pp_data_line_t`. -/
structure DataLine where
  line : Ptr
  len : ℕ
  rawlen : ℕ

/-- `ch_pp_data_input_line_read`: no line when no line feed stands in the input, and no result at
all when the bytes of the input cannot be read. -/
def dataInputLineRead (h : ByteHeap) (din : DataInput) : Option (Option DataLine × DataInput) :=
  (h.load din.pos din.rdlen).map fun bytes =>
    match bytes.idxOf? LF with
    | none => (none, din)
    | some lEnd =>
      let rawlineLen := lEnd + 1
      let lineLen := rawlineLen - 1
      let lineLen :=
        if 0 < lineLen ∧ bytes[lEnd - 1]? = some CR then lineLen - 1 else lineLen
      (some ⟨din.pos, lineLen, rawlineLen⟩, { din with pos := din.pos.add rawlineLen })

def linesRead (h : ByteHeap) : ℕ → DataInput → Option (List (List UInt8) × DataInput)
  | 0, _ => none
  | fuel + 1, din =>
    match dataInputLineRead h din with
    | none => none
    | some (none, din) => some ([], din)
    | some (some line, din) => do
      let text ← h.load line.line line.len
      let (lines, din) ← linesRead h fuel din
      some (text :: lines, din)

structure Feed where
  heap : ByteHeap
  din : DataInput
  lines : List (List UInt8)

/-- A piece arrives in a block of its own, which is given back when it has been read. -/
def feedPiece (al : Allocator) (w : Feed) (piece : List UInt8) : Option Feed := do
  let data : Ptr := ⟨w.heap.next, 0⟩
  let (din, h) ← readPrefare al (w.heap.alloc piece) w.din data piece.length
  let (lines, din) ← linesRead h (din.rdlen + 1) din
  let (din, h) ← readEnd h din
  let h ← h.release data
  some ⟨h, din, w.lines ++ lines⟩

def Feed.init (al : Allocator) (h : ByteHeap) (bsize : ℕ) : Feed :=
  let (bf, h) := bufferInit al h bsize
  ⟨h, { gBuffer := bf }, []⟩

def retained (w : Feed) : Option (List UInt8) :=
  match w.din.remainData.data with
  | none => some []
  | some p => w.heap.load p w.din.remainData.dlen

def dropCR (text : List UInt8) : List UInt8 :=
  if text.getLast? = some CR then text.dropLast else text

/-- The lines that end in the stream, and the bytes behind the last of them. -/
def linesOf (s : List UInt8) : List (List UInt8) × List UInt8 :=
  ((cutLines LF s).1.map dropCR, (cutLines LF s).2)

theorem linesOf_append (s s' : List UInt8) :
    linesOf (s ++ s') =
      ((linesOf s).1 ++ (linesOf ((linesOf s).2 ++ s')).1, (linesOf ((linesOf s).2 ++ s')).2) :=
  linesWith_append dropCR LF s s'

theorem linesOf_of_not_mem {s : List UInt8} (h : LF ∉ s) : linesOf s = ([], s) :=
  linesWith_of_not_mem dropCR h

structure View (h : ByteHeap) (din : DataInput) (bytes : List UInt8) : Prop where
  last : din.last = din.pos.add bytes.length
  load : h.load din.pos bytes.length = some bytes

variable {h : ByteHeap} {din : DataInput} {bytes : List UInt8}

theorem View.rdlen (hview : View h din bytes) : din.rdlen = bytes.length := by
  rw [DataInput.rdlen, hview.last, Ptr.offset_add]
  split <;> omega

theorem lineRead_none (hview : View h din bytes) (hlf : LF ∉ bytes) :
    dataInputLineRead h din = some (none, din) := by
  have hnone : bytes.idxOf? LF = none := List.idxOf?_eq_none_iff.2 hlf
  rw [dataInputLineRead, hview.rdlen, hview.load, Option.map_some, hnone]

theorem take_dropCR (text rest : List UInt8) :
    (text ++ rest).take (if 0 < text.length ∧ (text ++ rest)[text.length - 1]? = some CR
      then text.length - 1 else text.length) = dropCR text := by
  cases text using List.reverseRecOn with
  | nil => simp [dropCR]
  | append_singleton text b _ =>
    have hget : ((text ++ [b]) ++ rest)[(text ++ [b]).length - 1]? = some b := by
      simp
    rw [hget, dropCR, List.getLast?_concat]
    by_cases hb : b = CR
    · rw [if_pos ⟨by simp, by rw [hb]⟩, if_pos (by rw [hb]), List.dropLast_concat,
        List.append_assoc, List.length_append, List.length_singleton, Nat.add_sub_cancel,
        List.take_left]
    · have hne : some b ≠ some CR := fun heq => hb (Option.some.inj heq)
      rw [if_neg (fun hcr => hne hcr.2), if_neg hne, List.take_left]

theorem take_lineLen {text : List UInt8} (rest : List UInt8) (htext : LF ∉ text) :
    ∃ raw, lineRead (text ++ LF :: rest) = some (raw, rest) ∧
      raw.take (lineLen raw) = dropCR text := by
  refine ⟨text ++ [LF], lineRead_text htext rest, ?_⟩
  have hlen : (text ++ [LF]).length - 1 = text.length := by simp
  rw [lineLen, hlen]
  exact take_dropCR text [LF]

theorem lineRead_line {text rest : List UInt8} (hview : View h din (text ++ LF :: rest))
    (hlf : LF ∉ text) :
    ∃ line, dataInputLineRead h din =
        some (some line, { din with pos := din.pos.add (text.length + 1) }) ∧
      h.load line.line line.len = some (dropCR text) ∧
      View h { din with pos := din.pos.add (text.length + 1) } rest := by
  have hlen : (text ++ LF :: rest).length = text.length + 1 + rest.length := by
    simp only [List.length_append, List.length_cons]
    omega
  refine ⟨_, by
    rw [dataInputLineRead, hview.rdlen, hview.load, Option.map_some, idxOf?_line hlf], ?_, ?_, ?_⟩
  · have hload := ByteHeap.load_add hview.load (i := 0)
      (k := if 0 < text.length ∧ (text ++ LF :: rest)[text.length - 1]? = some CR
        then text.length - 1 else text.length) (by split <;> omega)
    rw [List.drop_zero, take_dropCR] at hload
    exact hload
  · rw [hview.last, hlen]
    simp only [Ptr.add, Nat.add_assoc]
  · have hload := ByteHeap.load_add hview.load (i := text.length + 1) (k := rest.length)
      (by omega)
    rw [hload]
    simp

theorem linesRead_eq {fuel : ℕ} (hview : View h din bytes) (hfuel : bytes.length < fuel) :
    ∃ p, linesRead h fuel din = some ((linesOf bytes).1, { din with pos := p }) ∧
      p.block = din.pos.block ∧ View h { din with pos := p } (linesOf bytes).2 := by
  induction fuel generalizing din bytes with
  | zero => omega
  | succ fuel ih =>
    rcases line_or_not_mem LF bytes with ⟨text, rest, hlf, rfl⟩ | hlf
    · obtain ⟨line, hread, htext, hrest⟩ := lineRead_line hview hlf
      have hlen : rest.length < fuel := by
        simp only [List.length_append, List.length_cons] at hfuel
        omega
      obtain ⟨p, hlines, hblock, hleft⟩ := ih hrest hlen
      refine ⟨p, ?_, hblock, ?_⟩
      · simp only [linesRead, hread, htext, hlines, linesOf, cutLines_line hlf, List.map_cons,
          Option.bind_eq_bind, Option.bind_some]
      · simpa only [linesOf, cutLines_line hlf] using hleft
    · refine ⟨din.pos, ?_, rfl, ?_⟩
      · simp only [linesRead, lineRead_none hview hlf, linesOf, cutLines_of_not_mem hlf,
          List.map_nil]
      · simpa only [linesOf, cutLines_of_not_mem hlf] using hview

structure Stores (h : ByteHeap) (din : DataInput) : Prop where
  buffer : din.gBuffer.bdata.offset = 0
  room : h.Room din.gBuffer.bdata din.gBuffer.bCurrentSize
  store : ∀ a, din.remainData.addr = some a →
    a.offset = 0 ∧ h.Room a din.remainData.addrEnd.offset ∧ a.block ≠ din.gBuffer.bdata.block

/-- `held` waits for the next piece. -/
structure Between (h : ByteHeap) (din : DataInput) (held : List UInt8) : Prop
    extends Stores h din where
  held : (din.remainData.data = none ∧ held = []) ∨
    ∃ a, din.remainData.data = some a ∧ din.remainData.addr = some a ∧
      din.remainData.dlen = held.length ∧ h.load a held.length = some held

/-- `bytes` are read, while a piece lies in the block `d`. -/
structure Reading (h : ByteHeap) (d : ℕ) (din : DataInput) (bytes : List UInt8) : Prop
    extends Stores h din, View h din bytes where
  packet : h.Room ⟨d, 0⟩ 0
  apart : din.gBuffer.bdata.block ≠ d ∧ ∀ a, din.remainData.addr = some a → a.block ≠ d
  away : ∀ a, din.remainData.addr = some a → a.block ≠ din.pos.block

variable {h' : ByteHeap} {held piece : List UInt8} {d : ℕ}

theorem Stores.congr (hstores : Stores h din) (hsize : h'.size = h.size) : Stores h' din where
  buffer := hstores.buffer
  room := hstores.room.congr (congrFun hsize _)
  store a ha := by
    obtain ⟨hstart, hroom, hne⟩ := hstores.store a ha
    exact ⟨hstart, hroom.congr (congrFun hsize _), hne⟩

theorem Between.retained {w : Feed} (hbetween : Between w.heap w.din held) :
    retained w = some held := by
  rcases hbetween.held with ⟨hnone, rfl⟩ | ⟨a, hdata, -, hlen, hload⟩
  · rw [PpDataInput.retained, hnone]
  · simp only [PpDataInput.retained, hdata, hlen, hload]

theorem Between.congr (hbetween : Between h din held)
    (hcell : ∀ i, i < h.next → i ≠ d → h'.cell i = h.cell i)
    (hbuffer : din.gBuffer.bdata.block ≠ d)
    (hstore : ∀ a, din.remainData.addr = some a → a.block ≠ d) : Between h' din held := by
  have hlive : ∀ {p : Ptr} {n : ℕ}, h.Room p n → p.block ≠ d → h'.cell p.block = h.cell p.block :=
    fun hroom hne => hcell _ hroom.lt_next hne
  refine ⟨⟨hbetween.buffer, ?_, fun a ha => ?_⟩, ?_⟩
  · exact hbetween.room.congr (ByteHeap.size_congr (hlive hbetween.room hbuffer))
  · obtain ⟨hstart, hroom, hne⟩ := hbetween.store a ha
    exact ⟨hstart, hroom.congr (ByteHeap.size_congr (hlive hroom (hstore a ha))), hne⟩
  · rcases hbetween.held with hnone | ⟨a, hdata, haddr, hlen, hload⟩
    · exact .inl hnone
    · refine .inr ⟨a, hdata, haddr, hlen, ?_⟩
      rw [ByteHeap.load_congr (hlive (ByteHeap.room_of_load hload) (hstore a haddr)), hload]

theorem Between.alloc (hbetween : Between h din held) (bs : List UInt8) :
    Between (h.alloc bs) din held := by
  refine hbetween.congr (d := h.next) (fun i hi _ => ByteHeap.cell_alloc_of_lt hi bs)
    hbetween.room.lt_next.ne fun a ha => ?_
  obtain ⟨-, hroom, -⟩ := hbetween.store a ha
  exact hroom.lt_next.ne

theorem bufferRoom_ok (al : Allocator) (hbetween : Between h din held) {n : ℕ} :
    ∃ bf h', bufferRoom al h din.gBuffer n = some (bf, h') ∧
      Between h' { din with gBuffer := bf } held ∧ h'.Room bf.bdata n ∧
      (∀ i, i < h.next → i ≠ din.gBuffer.bdata.block → h'.cell i = h.cell i) ∧
      (bf = din.gBuffer ∨ bf.bdata.block = h.next) := by
  by_cases hsmall : din.gBuffer.bCurrentSize < n
  · obtain ⟨h₁, hrelease, hcell, hnext⟩ := ByteHeap.release_ok hbetween.room hbetween.buffer
    have hcells : ∀ i, i < h.next → i ≠ din.gBuffer.bdata.block →
        (h₁.alloc (al.fresh h₁ (n + bSizeExt))).cell i = h.cell i := fun i hi hne => by
      rw [ByteHeap.cell_alloc_of_lt (hnext ▸ hi), hcell i hne]
    have hroom := ByteHeap.room_fresh al h₁ (n + bSizeExt)
    refine ⟨⟨⟨h₁.next, 0⟩, n⟩, h₁.alloc (al.fresh h₁ (n + bSizeExt)), ?_, ⟨⟨rfl, ?_, ?_⟩, ?_⟩, ?_,
      hcells, ?_⟩
    · rw [bufferRoom, if_pos hsmall, bufferUpdate, hrelease]
      rfl
    · exact hroom.mono (Nat.le_add_right n bSizeExt)
    · intro a ha
      obtain ⟨hstart, haroom, hne⟩ := hbetween.store a ha
      have hcella := hcells a.block haroom.lt_next hne
      exact ⟨hstart, haroom.congr (ByteHeap.size_congr hcella), by
        have := haroom.lt_next
        rw [← hnext] at this
        exact this.ne⟩
    · rcases hbetween.held with hnone | ⟨a, hdata, haddr, hlen, hload⟩
      · exact .inl hnone
      · have hne := (hbetween.store a haddr).2.2
        have hcella := hcells a.block (ByteHeap.room_of_load hload).lt_next hne
        exact .inr ⟨a, hdata, haddr, hlen, by rw [ByteHeap.load_congr hcella, hload]⟩
    · exact hroom.mono (Nat.le_add_right n bSizeExt)
    · exact .inr hnext
  · refine ⟨din.gBuffer, h, by rw [bufferRoom, if_neg hsmall], hbetween,
      hbetween.room.mono (by omega),
      fun _ _ _ => rfl, .inl rfl⟩

theorem readPrefare_ok (al : Allocator) (hbetween : Between h din held)
    (hpacket : h.load ⟨d, 0⟩ piece.length = some piece)
    (hbuffer : din.gBuffer.bdata.block ≠ d)
    (hstore : ∀ a, din.remainData.addr = some a → a.block ≠ d) :
    ∃ din' h', readPrefare al h din ⟨d, 0⟩ piece.length = some (din', h') ∧
      Reading h' d din' (held ++ piece) := by
  have hroom : h.Room ⟨d, 0⟩ piece.length := ByteHeap.room_of_load hpacket
  have hhere : held = [] → Reading h d { din with
      base := ⟨d, 0⟩, pos := ⟨d, 0⟩, last := (⟨d, 0⟩ : Ptr).add piece.length } (held ++ piece) := by
    rintro rfl
    exact ⟨⟨hbetween.buffer, hbetween.room, hbetween.store⟩, ⟨rfl, hpacket⟩,
      hroom.mono (Nat.zero_le _), ⟨hbuffer, hstore⟩, hstore⟩
  rcases hbetween.held with ⟨hnone, hnil⟩ | ⟨a, hdata, haddr, hlen, hload⟩
  · exact ⟨_, h, by rw [readPrefare, hnone], hhere hnil⟩
  by_cases hzero : din.remainData.dlen = 0
  · have hnil : held = [] := List.length_eq_zero_iff.1 (hlen ▸ hzero)
    exact ⟨_, h, by simp only [readPrefare, hdata, if_pos hzero], hhere hnil⟩
  obtain ⟨bf, h₁, hupdate, hbetween₁, hroom₁, hcell₁, hblock⟩ :=
    bufferRoom_ok al hbetween (n := held.length + piece.length)
  have hane : a.block ≠ bf.bdata.block := (hbetween₁.store a haddr).2.2
  have hdne : bf.bdata.block ≠ d := by
    rcases hblock with rfl | hblock
    · exact hbuffer
    · rw [hblock]
      exact hroom.lt_next.ne'
  have hload₁ : h₁.load a held.length = some held := by
    have hne := (hbetween.store a haddr).2.2
    rw [ByteHeap.load_congr (hcell₁ _ (ByteHeap.room_of_load hload).lt_next hne), hload]
  have hpacket₁ : h₁.load ⟨d, 0⟩ piece.length = some piece := by
    rw [ByteHeap.load_congr (hcell₁ d hroom.lt_next hbuffer.symm), hpacket]
  -- The bytes that were kept go to the front of the buffer, and the piece behind them.
  obtain ⟨h₂, hcopy₁, hstored₁⟩ := ByteHeap.memcpy_ok (.inl hane.symm) hload₁
    (hroom₁.mono (Nat.le_add_right _ _))
  have hpacket₂ : h₂.load ⟨d, 0⟩ piece.length = some piece := by
    rw [hstored₁.keep _ _ (.inl hdne), hpacket₁]
  have hclear : ByteHeap.Clear (bf.bdata.add held.length) piece.length ⟨d, 0⟩ piece.length :=
    .inl hdne
  obtain ⟨h₃, hcopy₂, hstored₂⟩ := ByteHeap.memcpy_ok hclear hpacket₂ (hstored₁.room hroom₁.add)
  have hfront : h₃.load bf.bdata held.length = some held := by
    rw [hstored₂.keep bf.bdata held.length (.inr (.inr (by simp))), hstored₁.load]
  have hview : h₃.load bf.bdata (held ++ piece).length = some (held ++ piece) := by
    rw [List.length_append]
    exact ByteHeap.load_append hfront hstored₂.load
  have hsize : h₃.size = h₁.size := hstored₂.size.trans hstored₁.size
  have hprefare : readPrefare al h din ⟨d, 0⟩ piece.length = some
      ({ din with
          gBuffer := bf
          base := bf.bdata
          pos := bf.bdata
          last := bf.bdata.add (held.length + piece.length)
          remainData := { din.remainData with data := none, dlen := 0 } }, h₃) := by
    rw [hlen] at hzero
    rw [readPrefare, hdata]
    simp only [hlen, if_neg hzero, hupdate, hcopy₁, hcopy₂, Option.bind_eq_bind, Option.bind_some]
  refine ⟨_, h₃, hprefare, ?_, ⟨?_, hview⟩, ?_, ⟨hdne, hstore⟩, ?_⟩
  · obtain ⟨hstart, hroom, hstores⟩ := hbetween₁.toStores.congr hsize
    exact ⟨hstart, hroom, hstores⟩
  · rw [List.length_append]
  · exact (ByteHeap.room_of_load hpacket₂).mono (Nat.zero_le _) |>.congr
      (congrFun hstored₂.size d)
  · intro a' ha'
    exact (hbetween₁.store a' ha').2.2

theorem readEnd_ok (hreading : Reading h d din bytes) :
    ∃ din' h', readEnd h din = some (din', h') ∧ Between h' din' bytes ∧ h'.Room ⟨d, 0⟩ 0 ∧
      din'.gBuffer.bdata.block ≠ d ∧ ∀ a, din'.remainData.addr = some a → a.block ≠ d := by
  have hrdlen := hreading.toView.rdlen
  by_cases hempty : bytes.length = 0
  · obtain rfl := List.length_eq_zero_iff.1 hempty
    have hend : readEnd h din = some ({ din with
        pos := din.base, remainData := { din.remainData with data := none, dlen := 0 } }, h) := by
      rw [readEnd, hrdlen]
      rfl
    exact ⟨_, h, hend, ⟨⟨hreading.buffer, hreading.room, hreading.store⟩, .inl ⟨rfl, rfl⟩⟩,
      hreading.packet, hreading.apart.1, hreading.apart.2⟩
  obtain ⟨r, h₁, a, hstore, haddr, hroom, hreading₁⟩ : ∃ r h₁ a,
      remainStore h din.remainData bytes.length = (r, h₁) ∧ r.addr = some a ∧
      h₁.Room a bytes.length ∧ Reading h₁ d { din with remainData := r } bytes := by
    by_cases hnew : needAllocNewStore din.remainData bytes.length
    · have hcell := fun i (hi : i < h.next) =>
        ByteHeap.cell_alloc_of_lt hi (List.replicate (bytes.length + safeSize) 0)
      have hroom := ByteHeap.room_alloc_self h (List.replicate (bytes.length + safeSize) 0)
      rw [List.length_replicate] at hroom
      have hbuffer := hreading.room.lt_next
      have hpos := (ByteHeap.room_of_load hreading.load).lt_next
      have hstore : remainStore h din.remainData bytes.length =
          ({ din.remainData with
              addr := some ⟨h.next, 0⟩, addrEnd := (⟨h.next, 0⟩ : Ptr).add bytes.length },
            h.alloc (List.replicate (bytes.length + safeSize) 0)) := by
        rw [remainStore, if_pos hnew]
        rfl
      refine ⟨_, _, ⟨h.next, 0⟩, hstore, rfl, hroom.mono (Nat.le_add_right _ _),
        ⟨⟨hreading.buffer, hreading.room.alloc _, ?_⟩,
          ⟨hreading.last, ByteHeap.load_alloc hreading.load _⟩, hreading.packet.alloc _, ?_, ?_⟩⟩
      · rintro _ ⟨⟩
        refine ⟨rfl, hroom.mono ?_, hbuffer.ne'⟩
        simp
      · refine ⟨hreading.apart.1, ?_⟩
        rintro _ ⟨⟩
        exact hreading.packet.lt_next.ne'
      · rintro _ ⟨⟩
        exact hpos.ne'
    · cases haddr : din.remainData.addr with
      | none => simp [needAllocNewStore, haddr] at hnew
      | some a =>
        obtain ⟨hstart, hroom, -⟩ := hreading.store a haddr
        have hfits : bytes.length ≤ din.remainData.addrEnd.offset := by
          simp only [needAllocNewStore, haddr, hstart, decide_eq_true_eq] at hnew
          omega
        exact ⟨_, h, a, by rw [remainStore, if_neg hnew], haddr, hroom.mono hfits, hreading⟩
  have hne : a.block ≠ din.pos.block := hreading₁.away a haddr
  obtain ⟨h₂, hcopy, hstored⟩ := ByteHeap.memcpy_ok (.inl hne) hreading₁.load hroom
  have hend : readEnd h din = some ({ din with
      pos := din.base, remainData := { r with data := some a, dlen := bytes.length } }, h₂) := by
    simp only [readEnd, hrdlen, if_pos (Nat.pos_of_ne_zero hempty), hstore, haddr, hcopy,
      Option.map_some]
  refine ⟨_, h₂, hend, ⟨?_, ?_⟩, hstored.room hreading₁.packet, hreading₁.apart⟩
  · obtain ⟨hstart, hroom, hstores⟩ := hreading₁.toStores.congr hstored.size
    exact ⟨hstart, hroom, hstores⟩
  · exact .inr ⟨a, rfl, haddr, rfl, hstored.load⟩

variable {al : Allocator}

theorem init_between (al : Allocator) (h : ByteHeap) (bsize : ℕ) :
    Between (Feed.init al h bsize).heap (Feed.init al h bsize).din [] := by
  refine ⟨⟨rfl, ?_, ?_⟩, .inl ⟨rfl, rfl⟩⟩
  · set n := if bsize = 0 then bSizeDefault else bsize with hn
    exact (ByteHeap.room_fresh al h (n + bSizeExt)).mono (Nat.le_add_right n bSizeExt)
  · rintro _ ⟨⟩

theorem feedPiece_ok {w : Feed} (hbetween : Between w.heap w.din held) (piece : List UInt8) :
    ∃ w', feedPiece al w piece = some w' ∧
      w'.lines = w.lines ++ (linesOf (held ++ piece)).1 ∧
      Between w'.heap w'.din (linesOf (held ++ piece)).2 := by
  have hfresh : w.din.gBuffer.bdata.block ≠ w.heap.next := hbetween.room.lt_next.ne
  have hfresh' : ∀ a, w.din.remainData.addr = some a → a.block ≠ w.heap.next := fun a ha =>
    (hbetween.store a ha).2.1.lt_next.ne
  obtain ⟨din₁, h₁, hprefare, hreading⟩ := readPrefare_ok al (hbetween.alloc piece)
    (ByteHeap.load_alloc_self w.heap piece) hfresh hfresh'
  have hfuel : (held ++ piece).length < din₁.rdlen + 1 := by
    rw [hreading.toView.rdlen]
    exact Nat.lt_succ_self _
  obtain ⟨p, hlines, hblock, hview⟩ := linesRead_eq hreading.toView hfuel
  have hreading₁ : Reading h₁ w.heap.next { din₁ with pos := p } (linesOf (held ++ piece)).2 :=
    ⟨⟨hreading.buffer, hreading.room, hreading.store⟩, hview, hreading.packet, hreading.apart,
      fun a ha => hblock ▸ hreading.away a ha⟩
  obtain ⟨din₂, h₂, hend, hbetween₂, hroom, hbuffer, hstore⟩ := readEnd_ok hreading₁
  obtain ⟨h₃, hrelease, hcell, -⟩ := ByteHeap.release_ok hroom rfl
  refine ⟨⟨h₃, din₂, _⟩, ?_, rfl, ?_⟩
  · simp only [feedPiece, hprefare, hlines, hend, hrelease, Option.bind_eq_bind, Option.bind_some]
  · exact hbetween₂.congr (fun i _ hne => hcell i hne) hbuffer hstore

theorem feed_ok (pieces : List (List UInt8)) {w : Feed} (hbetween : Between w.heap w.din held)
    (hheld : LF ∉ held) :
    ∃ w', pieces.foldlM (feedPiece al) w = some w' ∧
      w'.lines = w.lines ++ (linesOf (held ++ pieces.flatten)).1 ∧
      Between w'.heap w'.din (linesOf (held ++ pieces.flatten)).2 := by
  induction pieces generalizing w held with
  | nil =>
    have hlines := linesOf_of_not_mem hheld
    refine ⟨w, rfl, ?_, ?_⟩
    · rw [List.flatten_nil, List.append_nil, hlines, List.append_nil]
    · rwa [List.flatten_nil, List.append_nil, hlines]
  | cons piece pieces ih =>
    obtain ⟨w₁, hpiece, hlines₁, hbetween₁⟩ := feedPiece_ok hbetween piece
    obtain ⟨w', hrun, hlines, hbetween'⟩ := ih hbetween₁ (not_mem_cutLines_rest LF _)
    have happend := linesOf_append (held ++ piece) pieces.flatten
    rw [List.append_assoc, ← List.flatten_cons] at happend
    refine ⟨w', by rw [List.foldlM_cons, hpiece]; exact hrun, ?_, ?_⟩
    · rw [hlines, hlines₁, happend, List.append_assoc]
    · rwa [happend]

/-- However a stream is cut into pieces, its lines and the bytes that wait are those of the
uncut stream. -/
theorem feed_lines (al : Allocator) (h : ByteHeap) (bsize : ℕ) (pieces : List (List UInt8)) :
    ∃ w, pieces.foldlM (feedPiece al) (Feed.init al h bsize) = some w ∧
      w.lines = (linesOf pieces.flatten).1 ∧ retained w = some (linesOf pieces.flatten).2 := by
  obtain ⟨w, hrun, hlines, hbetween⟩ := feed_ok pieces (init_between al h bsize) (List.not_mem_nil)
  exact ⟨w, hrun, hlines, hbetween.retained⟩

end CloudHands.PpDataInput
