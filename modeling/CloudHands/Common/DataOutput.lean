import CloudHands.Lib.ByteHeap
import CloudHands.Lib.Guarded

/-!
# The growing output buffer

`lib/common/ch_data_output.h`, over the memory it works in. Each write first asks for room, and
the buffer grows by four times the bytes that were asked for when it has too little. The sizes are
those of blocks in memory, but for the one that `ch_dout_string16_write` keeps in 16 bits.
-/

namespace CloudHands.DataOutput

open Lib

/-- `ch_data_output_t`; `last` is its field `end`. -/
structure Dout where
  base : Ptr
  pos : Ptr
  last : Ptr

def doutSizeDefault : ℕ := 64 * 1024
def doutSizeExt : ℕ := 32

def Dout.size (dout : Dout) : ℕ := dout.last.offset - dout.base.offset

/-- `CH_DOUT_CONTENT_SIZE`. -/
def Dout.contentSize (dout : Dout) : ℕ := dout.pos.offset - dout.base.offset

def Dout.full (dout : Dout) (sz : ℕ) : Bool := decide (dout.last.offset < dout.pos.offset + sz)

def doutInit (al : Allocator) (h : ByteHeap) : Dout × ByteHeap :=
  let (p, h) := h.malloc al (doutSizeDefault + doutSizeExt)
  (⟨p, p, p.add doutSizeDefault⟩, h)

def copyOld (h : ByteHeap) (addr base : Ptr) (osize : ℕ) : Option ByteHeap :=
  if 0 < osize then h.memcpy addr base osize else some h

def doutIncr (al : Allocator) (h : ByteHeap) (dout : Dout) (incrSize : ℕ) :
    Option (Dout × ByteHeap) := do
  let nsize := dout.size + incrSize
  let osize := dout.contentSize
  let (addr, h) := h.malloc al (nsize + doutSizeExt)
  let h ← copyOld h addr dout.base osize
  let h ← h.release dout.base
  some (⟨addr, addr.add osize, addr.add nsize⟩, h)

def doutCheck (al : Allocator) (h : ByteHeap) (dout : Dout) (sz : ℕ) : Option (Dout × ByteHeap) :=
  if dout.full sz then doutIncr al h dout (4 * sz) else some (dout, h)

def doutWrite (h : ByteHeap) (dout : Dout) (bytes : List UInt8) : Option (Dout × ByteHeap) :=
  (h.store dout.pos bytes).map fun h => ({ dout with pos := dout.pos.add bytes.length }, h)

/-- The types that have a writer `ch_dout_*_write` of their own. -/
inductive ValueType
  | bool | short | int | long | ushort | uint | ulong | size | ssize | off
  | int8 | int16 | int32 | int64 | uint8 | uint16 | uint32 | uint64

def ValueType.width : ValueType → ℕ
  | bool | int8 | uint8 => 1
  | short | ushort | int16 | uint16 => 2
  | int | uint | int32 | uint32 => 4
  | long | ulong | size | ssize | off | int64 | uint64 => 8

/-- `DOUT_VALUE_WRITE`. -/
def doutValueBytes (v : ℤ) (byteNum : ℕ) : List UInt8 :=
  (List.range byteNum).map fun i => UInt8.ofInt (v >>> (byteNum * 8 - (i + 1) * 8))

def valueWrite (al : Allocator) (h : ByteHeap) (dout : Dout) (t : ValueType) (v : ℤ) :
    Option (ℕ × Dout × ByteHeap) := do
  let (dout, h) ← doutCheck al h dout t.width
  let (dout, h) ← doutWrite h dout (doutValueBytes v t.width)
  some (t.width, dout, h)

/-- A length of type `t` and the bytes, after a check for `rlen` bytes. -/
def prefixedWrite (al : Allocator) (h : ByteHeap) (dout : Dout) (t : ValueType) (rlen : ℕ)
    (bytes : List UInt8) : Option (ℕ × Dout × ByteHeap) := do
  let (dout, h) ← doutCheck al h dout rlen
  let (_, dout, h) ← valueWrite al h dout t bytes.length
  let (dout, h) ← doutWrite h dout bytes
  some (rlen, dout, h)

/-- `ch_dout_bytes_write`. -/
def bytesWrite (al : Allocator) (h : ByteHeap) (dout : Dout) (bytes : List UInt8) :
    Option (ℕ × Dout × ByteHeap) :=
  prefixedWrite al h dout .size (bytes.length + ValueType.size.width) bytes

def cText (str : List UInt8) : List UInt8 := str.takeWhile (· ≠ 0)

/-- `ch_dout_string_write`. -/
def stringWrite (al : Allocator) (h : ByteHeap) (dout : Dout) (str : List UInt8) :
    Option (ℕ × Dout × ByteHeap) :=
  prefixedWrite al h dout .size ((cText str).length + ValueType.size.width) (cText str)

/-- `ch_dout_string16_write`: `rlen` is a `uint16_t`. -/
def string16Write (al : Allocator) (h : ByteHeap) (dout : Dout) (str : List UInt8) :
    Option (ℕ × Dout × ByteHeap) :=
  prefixedWrite al h dout .uint16 ((str.length + ValueType.uint16.width) % 2 ^ 16) str

/-- Bytes whose number a length of `n` bytes can hold. -/
abbrev Sized (n : ℕ) := { bytes : List UInt8 // bytes.length < 256 ^ n }

inductive Write
  | value (t : ValueType) (v : ℤ)
  | bytes (bytes : Sized 8)
  | string (str : Sized 8)
  | string16 (str : Sized 2)

structure World where
  heap : ByteHeap
  dout : Dout

def World.init (al : Allocator) (h : ByteHeap) : World :=
  let (dout, h) := doutInit al h
  ⟨h, dout⟩

def write (al : Allocator) (w : World) : Write → Option (ℕ × Dout × ByteHeap)
  | .value t v => valueWrite al w.heap w.dout t v
  | .bytes bs => bytesWrite al w.heap w.dout bs.1
  | .string str => stringWrite al w.heap w.dout str.1
  | .string16 str => string16Write al w.heap w.dout str.1

def World.step (al : Allocator) (w : World) (wr : Write) : Option World :=
  (write al w wr).map fun (_, dout, h) => ⟨h, dout⟩

def World.content (w : World) : Option (List UInt8) := w.heap.load w.dout.base w.dout.contentSize

def lengthPrefixed (n : ℕ) (bytes : List UInt8) : List UInt8 := bigEndian n bytes.length ++ bytes

def Write.encoding : Write → List UInt8
  | .value t v => bigEndian t.width (v % 256 ^ t.width).toNat
  | .bytes bs => lengthPrefixed 8 bs.1
  | .string str => lengthPrefixed 8 (cText str.1)
  | .string16 str => lengthPrefixed 2 str.1

/-- A string whose size with its prefix does not fit in 16 bits has to fit without growth. -/
def World.Fits (w : World) : Write → Prop
  | .string16 str => str.1.length + 2 < 2 ^ 16 ∨ w.dout.contentSize + 2 + str.1.length ≤ w.dout.size
  | _ => True

theorem bigEndian_eq_map (n v : ℕ) :
    bigEndian n v = (List.range n).map fun i => UInt8.ofNat (v / 256 ^ (n - 1 - i)) := by
  induction n with
  | zero => rfl
  | succ n ih =>
    rw [bigEndian, ih, List.range_succ_eq_map, List.map_cons, List.map_map]
    refine congrArg₂ List.cons rfl (List.map_congr_left fun i hi => ?_)
    have hexp : n - 1 - i = n + 1 - 1 - (i + 1) := by omega
    rw [Function.comp_apply, hexp]

theorem ediv_emod_byte (v : ℤ) {k n : ℕ} (hk : k < n) :
    v / 256 ^ k % 256 = v % 256 ^ n / 256 ^ k % 256 := by
  have hpow : (256 : ℤ) ^ n = 256 ^ k * (256 * 256 ^ (n - k - 1)) := by
    rw [← pow_succ', ← pow_add]
    congr 1
    omega
  have hsplit : v = v % 256 ^ n + 256 ^ k * (256 * (256 ^ (n - k - 1) * (v / 256 ^ n))) := by
    have hdiv := Int.emod_add_mul_ediv v (256 ^ n)
    calc v = v % 256 ^ n + 256 ^ n * (v / 256 ^ n) := hdiv.symm
      _ = v % 256 ^ n + 256 ^ k * (256 * (256 ^ (n - k - 1) * (v / 256 ^ n))) := by
        rw [hpow]
        ring
  have hne : (256 : ℤ) ^ k ≠ 0 := by positivity
  conv_lhs => rw [hsplit]
  rw [Int.add_mul_ediv_left _ _ hne, Int.add_mul_emod_self_left]

theorem doutValueBytes_eq (v : ℤ) (n : ℕ) :
    doutValueBytes v n = bigEndian n (v % 256 ^ n).toNat := by
  rw [doutValueBytes, bigEndian_eq_map]
  refine List.map_congr_left fun i hi => ?_
  have hlt := List.mem_range.1 hi
  have hshift : n * 8 - (i + 1) * 8 = 8 * (n - 1 - i) := by omega
  have hnonneg : 0 ≤ v % 256 ^ n := Int.emod_nonneg v (by positivity)
  set m := (v % 256 ^ n).toNat / 256 ^ (n - 1 - i) with hm
  have hbyte : v >>> (n * 8 - (i + 1) * 8) % 2 ^ 8 = ((m % 256 : ℕ) : ℤ) := by
    rw [hshift, Int.shiftRight_eq_div_pow, pow_mul, hm]
    push_cast
    rw [Int.toNat_of_nonneg hnonneg]
    exact ediv_emod_byte v (by omega)
  rw [UInt8.ofInt, hbyte, Int.toNat_natCast]
  exact UInt8.ofNat_mod_size

/-- The size of a buffer with `c` bytes in it, after a check for `sz` more. -/
def grown (size c sz : ℕ) : ℕ := if size < c + sz then size + 4 * sz else size

/-- The buffer holds `out`. -/
structure Kept (h : ByteHeap) (dout : Dout) (out : List UInt8) : Prop where
  base : dout.base.offset = 0
  pos : dout.pos = dout.base.add out.length
  last : dout.last = dout.base.add dout.size
  room : h.Room dout.base (dout.size + doutSizeExt)
  fits : out.length ≤ dout.size
  load : h.load dout.base out.length = some out

variable {h h' : ByteHeap} {dout dout' : Dout} {out bytes : List UInt8} {al : Allocator} {sz : ℕ}

theorem Kept.contentSize (hkept : Kept h dout out) : dout.contentSize = out.length := by
  rw [Dout.contentSize, hkept.pos, Ptr.offset_add, Nat.add_sub_cancel_left]

theorem Kept.full (hkept : Kept h dout out) (sz : ℕ) :
    dout.full sz = decide (dout.size < out.length + sz) := by
  rw [Dout.full, hkept.last, hkept.pos, Ptr.offset_add, Ptr.offset_add]
  exact decide_eq_decide.2 (by omega)

theorem doutIncr_ok (al : Allocator) (hkept : Kept h dout out) (incrSize : ℕ) :
    ∃ dout' h', doutIncr al h dout incrSize = some (dout', h') ∧ Kept h' dout' out ∧
      dout'.size = dout.size + incrSize := by
  set n := dout.size + incrSize + doutSizeExt with hn
  set h₁ : ByteHeap := h.alloc (al.fresh h n) with hh₁
  have hnew : h₁.Room ⟨h.next, 0⟩ n := ByteHeap.room_fresh al h n
  have hfresh := hkept.room.lt_next
  have hfits := hkept.fits
  obtain ⟨h₂, hcopy, hload, hsize⟩ : ∃ h₂ : ByteHeap,
      copyOld h₁ ⟨h.next, 0⟩ dout.base out.length = some h₂ ∧
      h₂.load ⟨h.next, 0⟩ out.length = some out ∧ h₂.size = h₁.size := by
    by_cases hempty : 0 < out.length
    · have hclear : ByteHeap.Clear ⟨h.next, 0⟩ out.length dout.base out.length := .inl hfresh.ne'
      have hold : h₁.load dout.base out.length = some out := ByteHeap.load_alloc hkept.load _
      obtain ⟨h₂, hcopy, hstored⟩ := ByteHeap.memcpy_ok hclear hold (hnew.mono (by omega))
      exact ⟨h₂, by rw [copyOld, if_pos hempty, hcopy], hstored.load, hstored.size⟩
    · obtain rfl : out = [] := List.length_eq_zero_iff.1 (by omega)
      obtain ⟨data, hdata⟩ := (hnew.mono (Nat.zero_le n)).load
      obtain rfl := List.length_eq_zero_iff.1 (ByteHeap.length_of_load hdata)
      exact ⟨h₁, if_neg hempty, hdata, rfl⟩
  have hold : h₂.Room dout.base 0 :=
    ((hkept.room.alloc (al.fresh h n)).congr (congrFun hsize _)).mono (Nat.zero_le _)
  obtain ⟨h₃, hrelease, hcell, -⟩ := ByteHeap.release_ok hold hkept.base
  have hnew₃ : h₃.Room ⟨h.next, 0⟩ n :=
    (hnew.congr (congrFun hsize _)).congr (ByteHeap.size_congr (hcell _ hfresh.ne'))
  have hincr : doutIncr al h dout incrSize = some (⟨⟨h.next, 0⟩, (⟨h.next, 0⟩ : Ptr).add out.length,
      (⟨h.next, 0⟩ : Ptr).add (dout.size + incrSize)⟩, h₃) := by
    simp only [doutIncr, hkept.contentSize, ByteHeap.malloc, ← hn, ← hh₁, hcopy, hrelease,
      Option.bind_eq_bind, Option.bind_some]
  have hsize' : Dout.size ⟨⟨h.next, 0⟩, (⟨h.next, 0⟩ : Ptr).add out.length,
      (⟨h.next, 0⟩ : Ptr).add (dout.size + incrSize)⟩ = dout.size + incrSize := by
    rw [Dout.size, Ptr.offset_add, Nat.add_sub_cancel_left]
  refine ⟨_, h₃, hincr, ⟨rfl, rfl, by rw [hsize'], by rw [hsize', ← hn]; exact hnew₃, ?_, ?_⟩,
    hsize'⟩
  · rw [hsize']
    omega
  · rw [ByteHeap.load_congr (hcell _ hfresh.ne'), hload]

theorem doutCheck_ok (al : Allocator) (hkept : Kept h dout out) (sz : ℕ) :
    ∃ dout' h', doutCheck al h dout sz = some (dout', h') ∧ Kept h' dout' out ∧
      dout'.size = grown dout.size out.length sz := by
  rw [doutCheck, hkept.full, grown]
  by_cases hfull : dout.size < out.length + sz
  · rw [if_pos (decide_eq_true hfull), if_pos hfull]
    exact doutIncr_ok al hkept (4 * sz)
  · rw [if_neg (by simpa using hfull), if_neg hfull]
    exact ⟨dout, h, rfl, hkept, rfl⟩

theorem doutWrite_ok (hkept : Kept h dout out) (hfits : out.length + bytes.length ≤ dout.size) :
    ∃ dout' h', doutWrite h dout bytes = some (dout', h') ∧ Kept h' dout' (out ++ bytes) ∧
      dout'.size = dout.size := by
  have hroom : h.Room dout.pos bytes.length := by
    rw [hkept.pos]
    exact (hkept.room.mono (by omega)).add
  obtain ⟨h', hstore, hstored⟩ := ByteHeap.store_ok hroom
  have hold : h'.load dout.base out.length = some out := by
    rw [hstored.keep _ _ (.inr (.inr (by rw [hkept.pos]; rfl))), hkept.load]
  have hnew := hstored.load
  rw [hkept.pos] at hnew
  have hwrite : doutWrite h dout bytes =
      some ({ dout with pos := dout.pos.add bytes.length }, h') := by
    rw [doutWrite, hstore, Option.map_some]
  refine ⟨_, h', hwrite, ⟨hkept.base, ?_, hkept.last, hstored.room hkept.room,
    by rwa [List.length_append], ?_⟩, rfl⟩
  · rw [hkept.pos, Ptr.add_add, List.length_append]
  · rw [List.length_append]
    exact ByteHeap.load_append hold hnew

theorem doutWrite_over (hkept : Kept h dout out) (hover : dout.size < out.length + bytes.length)
    (hwrite : doutWrite h dout bytes = some (dout', h')) :
      dout'.last.offset < dout'.pos.offset := by
  obtain ⟨h₁, -, heq⟩ := Option.map_eq_some_iff.1 hwrite
  obtain ⟨rfl, rfl⟩ := Prod.mk.inj heq
  simp only [hkept.pos, hkept.last, Ptr.offset_add]
  omega

theorem valueWrite_ok (al : Allocator) (hkept : Kept h dout out) (t : ValueType) (v : ℤ) :
    ∃ dout' h', valueWrite al h dout t v = some (t.width, dout', h') ∧
      Kept h' dout' (out ++ bigEndian t.width (v % 256 ^ t.width).toNat) ∧
      dout'.size = grown dout.size out.length t.width := by
  obtain ⟨dout₁, h₁, hcheck, hkept₁, hsize₁⟩ := doutCheck_ok al hkept t.width
  have hroom : out.length + (doutValueBytes v t.width).length ≤ dout₁.size := by
    have hfits := hkept.fits
    rw [doutValueBytes_eq, length_bigEndian, hsize₁, grown]
    split <;> omega
  obtain ⟨dout₂, h₂, hwrite, hkept₂, hsize₂⟩ := doutWrite_ok hkept₁ hroom
  refine ⟨dout₂, h₂, ?_, doutValueBytes_eq v t.width ▸ hkept₂, hsize₂.trans hsize₁⟩
  simp only [valueWrite, hcheck, hwrite, Option.bind_eq_bind, Option.bind_some]

theorem le_grown (size c sz : ℕ) : size ≤ grown size c sz := by
  rw [grown]
  split <;> omega

theorem fits_grown {size c : ℕ} (hc : c ≤ size) (sz : ℕ) : c + sz ≤ grown size c sz := by
  rw [grown]
  split <;> omega

theorem bigEndian_emod {n len : ℕ} (hlen : len < 256 ^ n) :
    bigEndian n ((len : ℤ) % 256 ^ n).toNat = bigEndian n len := by
  have hcast : (len : ℤ) % 256 ^ n = ((len % 256 ^ n : ℕ) : ℤ) := by push_cast; rfl
  rw [hcast, Int.toNat_natCast, Nat.mod_eq_of_lt hlen]

theorem prefixedWrite_cases (al : Allocator) (hkept : Kept h dout out) (t : ValueType) (rlen : ℕ)
    (hlen : bytes.length < 256 ^ t.width) :
    ∃ dout₁ h₁, Kept h₁ dout₁ (out ++ bigEndian t.width bytes.length) ∧
      dout₁.size = grown (grown dout.size out.length rlen) out.length t.width ∧
      prefixedWrite al h dout t rlen bytes =
        (doutWrite h₁ dout₁ bytes).map fun (dout, h) => (rlen, dout, h) := by
  obtain ⟨dout₁, h₁, hcheck, hkept₁, hsize₁⟩ := doutCheck_ok al hkept rlen
  obtain ⟨dout₂, h₂, hvalue, hkept₂, hsize₂⟩ := valueWrite_ok al hkept₁ t bytes.length
  refine ⟨dout₂, h₂, bigEndian_emod hlen ▸ hkept₂, by rw [hsize₂, hsize₁], ?_⟩
  simp only [prefixedWrite, hcheck, hvalue, Option.bind_eq_bind, Option.bind_some]
  cases doutWrite h₂ dout₂ bytes <;> rfl

theorem prefixedWrite_ok (al : Allocator) (hkept : Kept h dout out) {t : ValueType} {rlen : ℕ}
    (hlen : bytes.length < 256 ^ t.width)
    (hroom : out.length + t.width + bytes.length ≤
      grown (grown dout.size out.length rlen) out.length t.width) :
    ∃ dout' h', prefixedWrite al h dout t rlen bytes = some (rlen, dout', h') ∧
      Kept h' dout' (out ++ lengthPrefixed t.width bytes) := by
  obtain ⟨dout₁, h₁, hkept₁, hsize₁, heq⟩ := prefixedWrite_cases al hkept t rlen hlen
  have hfits : (out ++ bigEndian t.width bytes.length).length + bytes.length ≤ dout₁.size := by
    rw [List.length_append, length_bigEndian, hsize₁]
    exact hroom
  obtain ⟨dout₂, h₂, hwrite, hkept₂, -⟩ := doutWrite_ok hkept₁ hfits
  refine ⟨dout₂, h₂, by rw [heq, hwrite, Option.map_some], ?_⟩
  rwa [List.append_assoc] at hkept₂

theorem prefixedWrite_over (hkept : Kept h dout out) {t : ValueType} {rlen n : ℕ}
    (hlen : bytes.length < 256 ^ t.width)
    (hover : grown (grown dout.size out.length rlen) out.length t.width <
      out.length + t.width + bytes.length)
    (hwrite : prefixedWrite al h dout t rlen bytes = some (n, dout', h')) :
    dout'.last.offset < dout'.pos.offset := by
  obtain ⟨dout₁, h₁, hkept₁, hsize₁, heq⟩ := prefixedWrite_cases al hkept t rlen hlen
  rw [heq] at hwrite
  obtain ⟨⟨dout₂, h₂⟩, hwrite₂, hresult⟩ := Option.map_eq_some_iff.1 hwrite
  obtain ⟨-, rfl, rfl⟩ := by simpa only [Prod.mk.injEq] using hresult
  refine doutWrite_over hkept₁ ?_ hwrite₂
  rw [List.length_append, length_bigEndian, hsize₁]
  exact hover

theorem room_of_check {size c : ℕ} (hc : c ≤ size) (w len : ℕ) :
    c + w + len ≤ grown (grown size c (len + w)) c w := by
  have hroom := fits_grown hc (len + w)
  have hgrow := le_grown (grown size c (len + w)) c w
  omega

theorem room_string16 {size c len : ℕ} (hc : c ≤ size) (hlen : len < 2 ^ 16) :
    c + 2 + len ≤ grown (grown size c ((len + 2) % 2 ^ 16)) c 2 ↔
      len + 2 < 2 ^ 16 ∨ c + 2 + len ≤ size := by
  by_cases hsmall : len + 2 < 2 ^ 16
  · rw [Nat.mod_eq_of_lt hsmall]
    exact iff_of_true (room_of_check hc 2 len) (.inl hsmall)
  · rw [or_iff_right hsmall]
    have hmod : (len + 2) % 2 ^ 16 = len + 2 - 2 ^ 16 := by omega
    refine ⟨fun hroom => ?_, fun hfits => ?_⟩
    · rw [hmod] at hroom
      unfold grown at hroom
      split at hroom <;> split at hroom <;> omega
    · have h₁ := le_grown size c ((len + 2) % 2 ^ 16)
      have h₂ := le_grown (grown size c ((len + 2) % 2 ^ 16)) c 2
      omega

theorem length_cText_lt {n : ℕ} (str : Sized n) : (cText str.1).length < 256 ^ n :=
  lt_of_le_of_lt (List.takeWhile_prefix _).length_le str.2

variable {w w' : World} {wr : Write}

theorem step_kept (al : Allocator) (hkept : Kept w.heap w.dout out) (hfits : w.Fits wr) :
    ∃ w', w.step al wr = some w' ∧ Kept w'.heap w'.dout (out ++ wr.encoding) := by
  suffices hwrite : ∃ n dout' h', write al w wr = some (n, dout', h') ∧
      Kept h' dout' (out ++ wr.encoding) by
    obtain ⟨n, dout', h', hwrite, hkept'⟩ := hwrite
    exact ⟨⟨h', dout'⟩, by rw [World.step, hwrite, Option.map_some], hkept'⟩
  cases wr with
  | value t v =>
    obtain ⟨dout', h', hwrite, hkept', -⟩ := valueWrite_ok al hkept t v
    exact ⟨_, dout', h', hwrite, hkept'⟩
  | bytes bs => exact ⟨_, prefixedWrite_ok al hkept bs.2 (room_of_check hkept.fits 8 _)⟩
  | string str =>
    exact ⟨_, prefixedWrite_ok al hkept (length_cText_lt str) (room_of_check hkept.fits 8 _)⟩
  | string16 str =>
    rw [World.Fits, hkept.contentSize] at hfits
    have hroom := (room_string16 hkept.fits str.2).2 hfits
    exact ⟨_, prefixedWrite_ok al hkept (t := .uint16) str.2 hroom⟩

theorem step_over (hkept : Kept w.heap w.dout out) (hfits : ¬ w.Fits wr)
    (hstep : w.step al wr = some w') : w'.dout.last.offset < w'.dout.pos.offset := by
  cases wr with
  | value t v => exact absurd trivial hfits
  | bytes bs => exact absurd trivial hfits
  | string str => exact absurd trivial hfits
  | string16 str =>
    rw [World.Fits, hkept.contentSize, ← room_string16 hkept.fits str.2, not_le] at hfits
    obtain ⟨⟨n, dout', h'⟩, hwrite, rfl⟩ := Option.map_eq_some_iff.1 hstep
    exact prefixedWrite_over hkept (t := .uint16) str.2 hfits hwrite

theorem init_kept (al : Allocator) (h : ByteHeap) :
    Kept (World.init al h).heap (World.init al h).dout [] := by
  have hroom := ByteHeap.room_fresh al h (doutSizeDefault + doutSizeExt)
  have hload := ByteHeap.load_alloc_self h (al.fresh h (doutSizeDefault + doutSizeExt))
  rw [al.length_fresh] at hload
  have hempty := ByteHeap.load_add hload (i := 0) (k := 0) (Nat.zero_le _)
  have hsize : (World.init al h).dout.size = doutSizeDefault :=
    Nat.add_sub_cancel_left 0 doutSizeDefault
  exact ⟨rfl, rfl, by rw [hsize]; rfl, by rw [hsize]; exact hroom, Nat.zero_le _, hempty⟩

/-- The content is the encodings in order, and the write position is not behind the end. -/
def World.Holds (w : World) (out : List UInt8) : Prop :=
  w.content = some out ∧ w.dout.pos.offset ≤ w.dout.last.offset

theorem Kept.holds (hkept : Kept w.heap w.dout out) : w.Holds out := by
  refine ⟨by rw [World.content, hkept.contentSize, hkept.load], ?_⟩
  rw [hkept.pos, hkept.last, Ptr.offset_add, Ptr.offset_add]
  exact Nat.add_le_add_left hkept.fits _

/-- All along a sequence of writes the content is the encodings in order and ends before the end
of the buffer, exactly if every string16 is short enough or fits without growth; and a length
prefix is the number of bytes behind it. -/
theorem writes_hold_iff (al : Allocator) (h : ByteHeap) (ops : List Write) :
    ((∀ pre, pre <+: ops → ∃ w, runFrom (World.step al) (World.init al h) pre = some w ∧
        w.Holds (pre.flatMap Write.encoding)) ↔
      Follows (World.step al) World.Fits (World.init al h) ops) ∧
    ∀ n (bytes : Sized n), ofBigEndian ((lengthPrefixed n bytes.1).take n) =
      ((lengthPrefixed n bytes.1).drop n).length := by
  refine ⟨?_, fun n bytes => ?_⟩
  · simp only [List.flatMap_eq_foldl]
    refine follows_iff_good (fun out wr => out ++ Write.encoding wr)
      (fun w out => Kept w.heap w.dout out) World.Holds Kept.holds (init_kept al h)
      (step_kept al) ?_
    intro w out wr w' hkept hstep hholds
    by_contra hfits
    exact absurd hholds.2 (step_over hkept hfits hstep).not_ge
  · have hlen : (bigEndian n bytes.1.length).length = n := length_bigEndian n _
    rw [lengthPrefixed, List.take_left' hlen, List.drop_left' hlen,
      ofBigEndian_bigEndian_of_lt bytes.2]

def longest : Sized 2 := ⟨List.replicate 65535 0, by rw [List.length_replicate]; norm_num⟩

/-- The longest string of a new buffer ends behind the end of the buffer. -/
theorem longest_overruns :
    ¬ ∀ (al : Allocator) (h : ByteHeap) (ops pre : List Write), pre <+: ops →
      ∃ w, runFrom (World.step al) (World.init al h) pre = some w ∧
        w.Holds (pre.flatMap Write.encoding) := by
  intro hclaim
  obtain ⟨w, hrun, hholds⟩ := hclaim .zeroed Arena.empty [.string16 longest] _ List.prefix_rfl
  have hlen : longest.1.length = 65535 := List.length_replicate
  have hsize : (World.init .zeroed Arena.empty).dout.size = doutSizeDefault :=
    Nat.add_sub_cancel_left 0 doutSizeDefault
  have hfits : ¬ (World.init .zeroed Arena.empty).Fits (.string16 longest) := by
    rw [World.Fits, hlen, hsize, doutSizeDefault]
    omega
  have hstep : (World.init .zeroed Arena.empty).step .zeroed (.string16 longest) = some w := by
    simpa only [runFrom, Option.bind_some, Option.bind_fun_some] using hrun
  exact absurd hholds.2 (step_over (init_kept _ _) hfits hstep).not_ge

end CloudHands.DataOutput
