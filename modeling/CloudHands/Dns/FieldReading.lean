import CloudHands.Dns.Parse
import CloudHands.Lib.Calls
import CloudHands.Lib.Memory

/-!
# The field readers of the record parsers

`udp/app/dns`: the data of a record are parsed in place, so behind their end stand other
bytes of the memory. A parser is the program of the reads it makes. `ReadCall.run` is what
the readers do, `ReadCall.slice` gives every read the next bytes of the record.
-/

namespace CloudHands.Dns

open Lib

/-- `ch_dns_data_input_t` of a record; the message begins at the address zero. -/
structure RdataInput where
  mem : Memory
  pos : ℕ
  last : ℕ

namespace RdataInput

/-- `last - pos` as a `size_t`. -/
def rdlen (din : RdataInput) : ℕ :=
  if din.pos ≤ din.last then din.last - din.pos else 2 ^ 64 - (din.pos - din.last)

def readOver (din : RdataInput) (sz : ℕ) : Bool := din.last < din.pos + sz

def posUpdate (din : RdataInput) (sz : ℕ) : RdataInput := { din with pos := din.pos + sz }

def rest (din : RdataInput) : List UInt8 := din.mem.read din.pos (din.last - din.pos)

theorem readOver_of_lt {din : RdataInput} {sz : ℕ} (h : din.last < din.pos + sz) :
    din.readOver sz = true := decide_eq_true h

theorem readOver_of_le {din : RdataInput} {sz : ℕ} (h : din.pos + sz ≤ din.last) :
    din.readOver sz = false := decide_eq_false (not_lt.2 h)

end RdataInput

inductive ReadCall : Type → Type
  | uint (width : ℕ) : ReadCall ℕ
  | bstring : ReadCall (Option (List UInt8))
  | bstringDup : ReadCall (Option (List UInt8))
  | bytes (n : ℕ) : ReadCall (Option (List UInt8))
  | rbytes : ReadCall (Option (List UInt8))
  /-- The `memcpy` of an address of 16 bytes. -/
  | in6Addr : ReadCall (List UInt8)
  | name : ReadCall (Option DnsName)
  | rdlen : ReadCall ℕ
  | readOver (sz : ℕ) : ReadCall Bool

namespace ReadCall

open RdataInput

variable (residue : ℕ → ℕ → UInt8)

def uintRead (width : ℕ) (din : RdataInput) : ℕ × RdataInput :=
  if din.readOver width then (0, din)
  else (ofBigEndian (din.mem.read din.pos width), din.posUpdate width)

def bstringRead (din : RdataInput) : Option (List UInt8) × RdataInput :=
  if din.readOver 1 then (none, din)
  else
    let (len, din) := uintRead 1 din
    (some (din.mem.read din.pos len), din.posUpdate len)

def bstringReadDup (din : RdataInput) : Option (List UInt8) × RdataInput :=
  if din.readOver 1 then (none, din)
  else
    let rdlen := din.rdlen
    let (dlen, din) := uintRead 1 din
    let dlen := if rdlen < dlen then rdlen else dlen
    (some (din.mem.read din.pos dlen), din.posUpdate dlen)

def bytesRead (n : ℕ) (din : RdataInput) : Option (List UInt8) × RdataInput :=
  let rBytes := if din.rdlen < n then din.rdlen else n
  if rBytes = 0 then (none, din)
  else
    let din := din.posUpdate rBytes
    (some (din.mem.read din.pos rBytes), din)

def rbytesRead (din : RdataInput) : Option (List UInt8) × RdataInput :=
  if din.rdlen = 0 then (none, din)
  else (some (din.mem.read din.pos din.rdlen), { din with pos := din.last })

def nameParse (din : RdataInput) : Option DnsName × RdataInput :=
  match dnsNameParse residue ⟨din.mem.read 0 din.last, din.pos⟩ with
  | none => (none, din)
  | some (dname, d) => (some dname, { din with pos := d.pos })

def run {β : Type} : ReadCall β → RdataInput → β × RdataInput
  | .uint width, din => uintRead width din
  | .bstring, din => bstringRead din
  | .bstringDup, din => bstringReadDup din
  | .bytes n, din => bytesRead n din
  | .rbytes, din => rbytesRead din
  | .in6Addr, din => (din.mem.read din.pos 16, din.posUpdate 16)
  | .name, din => nameParse residue din
  | .rdlen, din => (din.rdlen, din)
  | .readOver sz, din => (din.readOver sz, din)

def touched {β : Type} : ReadCall β → RdataInput → ℕ × ℕ
  | .uint width, din => (din.pos, if din.readOver width then 0 else width)
  | .bstring, din => (din.pos, if din.readOver 1 then 0 else 1 + (din.mem din.pos).toNat)
  | .bstringDup, din =>
    (din.pos, if din.readOver 1 then 0 else 1 + min (din.mem din.pos).toNat din.rdlen)
  | .bytes n, din => (din.pos + min n din.rdlen, min n din.rdlen)
  | .rbytes, din => (din.pos, din.rdlen)
  | .in6Addr, din => (din.pos, 16)
  | .name, din => (din.pos, 0)
  | .rdlen, din => (din.pos, 0)
  | .readOver _, din => (din.pos, 0)

def countedSlice (din : RdataInput) : Option (List UInt8) × RdataInput :=
  match din.rest with
  | [] => (none, din)
  | len :: tail => (some (tail.take len.toNat), din.posUpdate (1 + min len.toNat tail.length))

/-- Every read gives the next bytes of the record, clipped to it, and goes on behind them. -/
def slice {β : Type} : ReadCall β → RdataInput → β × RdataInput
  | .uint width, din =>
      (ofBigEndian (din.rest.take width), din.posUpdate (min width din.rest.length))
  | .bstring, din => countedSlice din
  | .bstringDup, din => countedSlice din
  | .bytes n, din =>
    (if min n din.rest.length = 0 then none else some (din.rest.take n),
      din.posUpdate (min n din.rest.length))
  | .rbytes, din => (if din.rest = [] then none else some din.rest, din.posUpdate din.rest.length)
  | .in6Addr, din => (din.rest.take 16, din.posUpdate (min 16 din.rest.length))
  | .name, din => nameParse residue din
  | .rdlen, din => (din.rest.length, din)
  | .readOver sz, din => (decide (din.rest.length < sz), din)

structure Right {β : Type} (call : ReadCall β) (din : RdataInput) : Prop where
  value : call.run residue din = call.slice residue din
  inside : (call.run residue din).2.pos ≤ din.last
  touched : (call.touched din).2 = 0 ∨
    din.pos ≤ (call.touched din).1 ∧ (call.touched din).1 + (call.touched din).2 ≤ din.last

/-- The record holds what the call reads: a number or an announced string is not cut by the
end, and the bytes of a block are there once more behind it. -/
def Fits {β : Type} : ReadCall β → RdataInput → Prop
  | .uint width, din => din.pos = din.last ∨ din.pos + width ≤ din.last
  | .bstring, din => din.pos = din.last ∨ din.pos + 1 + (din.mem din.pos).toNat ≤ din.last
  | .bstringDup, din => din.pos = din.last ∨ din.pos + 1 + (din.mem din.pos).toNat ≤ din.last
  | .bytes n, din =>
    let r := min n (din.last - din.pos)
    r = 0 ∨ din.pos + 2 * r ≤ din.last ∧ din.mem.read (din.pos + r) r = din.mem.read din.pos r
  | .in6Addr, din => din.pos + 16 ≤ din.last
  | .rbytes, _ => True
  | .name, _ => True
  | .rdlen, _ => True
  | .readOver _, _ => True

instance {β : Type} : (call : ReadCall β) → (din : RdataInput) → Decidable (Fits call din)
  | .uint width, din =>
      inferInstanceAs (Decidable (din.pos = din.last ∨ din.pos + width ≤ din.last))
  | .bstring, din | .bstringDup, din =>
    inferInstanceAs (Decidable
      (din.pos = din.last ∨ din.pos + 1 + (din.mem din.pos).toNat ≤ din.last))
  | .bytes n, din =>
    have decidableRepeated (r : ℕ) : Decidable (r = 0 ∨ din.pos + 2 * r ≤ din.last ∧
        din.mem.read (din.pos + r) r = din.mem.read din.pos r) := inferInstance
    decidableRepeated (min n (din.last - din.pos))
  | .in6Addr, din => inferInstanceAs (Decidable (din.pos + 16 ≤ din.last))
  | .rbytes, _ | .name, _ | .rdlen, _ | .readOver _, _ => isTrue trivial

section Calls

variable {residue : ℕ → ℕ → UInt8} {din : RdataInput}

theorem rdlen_eq (h : din.pos ≤ din.last) : din.rdlen = din.last - din.pos := if_pos h

@[simp] theorem length_rest : din.rest.length = din.last - din.pos := Memory.length_read _ _ _

theorem take_rest (n : ℕ) :
    din.rest.take n = din.mem.read din.pos (min n (din.last - din.pos)) := by
  rw [rest, ← Memory.take_read _ _ (Nat.min_le_right n _)]
  rcases Nat.le_total n (din.last - din.pos) with hle | hle
  · rw [Nat.min_eq_left hle]
  · rw [Nat.min_eq_right hle, List.take_of_length_le (by simpa using hle),
      List.take_of_length_le (by simp)]

theorem posUpdate_inj {m n : ℕ} : din.posUpdate m = din.posUpdate n ↔ m = n := by
  simp [posUpdate]

theorem eq_posUpdate_iff {n : ℕ} : din = din.posUpdate n ↔ n = 0 := by
  constructor
  · intro h
    have hpos := congrArg RdataInput.pos h
    simp only [posUpdate] at hpos
    omega
  · rintro rfl
    rfl

theorem read_one (mem : Memory) (a : ℕ) : mem.read a 1 = [mem a] := by
  simp [Memory.read, List.range_one]

theorem read_succ (mem : Memory) (a n : ℕ) : mem.read a (n + 1) = mem a :: mem.read (a + 1) n := by
  simp only [Memory.read, List.range_succ_eq_map, List.map_cons, List.map_map, Nat.add_zero]
  congr 1
  apply List.map_congr_left
  intro i _
  simp [Nat.add_assoc, Nat.add_comm 1]

theorem countedSlice_eq (h : din.pos < din.last) :
    countedSlice din =
      (some (din.mem.read (din.pos + 1) (min (din.mem din.pos).toNat (din.last - din.pos - 1))),
        din.posUpdate (1 + min (din.mem din.pos).toNat (din.last - din.pos - 1))) := by
  obtain ⟨k, hk⟩ : ∃ k, din.last - din.pos = k + 1 := ⟨din.last - din.pos - 1, by omega⟩
  have hrest : din.rest = din.mem din.pos :: din.mem.read (din.pos + 1) k := by
    rw [rest, hk, read_succ]
  rw [countedSlice, hrest, hk]
  simp only [Memory.length_read, Nat.add_sub_cancel]
  rcases Nat.le_total (din.mem din.pos).toNat k with hle | hle
  · rw [Nat.min_eq_left hle, Memory.take_read _ _ hle]
  · rw [Nat.min_eq_right hle, List.take_of_length_le (by simpa using hle)]

theorem countedSlice_end (h : din.pos = din.last) : countedSlice din = (none, din) := by
  have hrest : din.rest = [] := by
    rw [rest, h, Nat.sub_self]
    rfl
  rw [countedSlice, hrest]

theorem uintRead_one (h : din.pos < din.last) :
    uintRead 1 din = ((din.mem din.pos).toNat, din.posUpdate 1) := by
  rw [uintRead, readOver_of_le h, if_neg (by simp), read_one]
  simp [ofBigEndian]

theorem right_uint (h : din.pos ≤ din.last) (width : ℕ) :
    Right residue (.uint width) din ↔ Fits (.uint width) din := by
  by_cases hover : din.last < din.pos + width
  · have hrun : (ReadCall.uint width).run residue din = (0, din) := by
      simp [run, uintRead, readOver_of_lt hover]
    constructor
    · intro hright
      have hvalue := hright.value
      rw [hrun] at hvalue
      have hpos := eq_posUpdate_iff.1 (congrArg Prod.snd hvalue)
      rw [length_rest] at hpos
      exact .inl (by omega)
    · rintro (hend | hfits)
      · refine ⟨?_, ?_, .inl (by simp [touched, readOver_of_lt hover])⟩
        · rw [hrun, slice, take_rest, length_rest, hend, Nat.sub_self, Nat.min_zero]
          rfl
        · rw [hrun]
          exact h
      · omega
  · have hrun : (ReadCall.uint width).run residue din
        = (ofBigEndian (din.mem.read din.pos width), din.posUpdate width) := by
      simp [run, uintRead, readOver_of_le (not_lt.1 hover)]
    refine ⟨fun _ => .inr (by omega), fun _ => ⟨?_, ?_, ?_⟩⟩
    · rw [hrun, slice, take_rest, length_rest, Nat.min_eq_left (by omega)]
    · rw [hrun]
      simp only [posUpdate]
      omega
    · refine .inr ⟨le_rfl, ?_⟩
      simpa [touched, readOver_of_le (not_lt.1 hover)] using not_lt.1 hover

theorem right_bytes (h : din.pos ≤ din.last) (n : ℕ) :
    Right residue (.bytes n) din ↔ Fits (.bytes n) din := by
  have hmin : (if din.rdlen < n then din.rdlen else n) = min n (din.last - din.pos) := by
    rw [rdlen_eq h]
    split <;> omega
  have hslice : (ReadCall.bytes n).slice residue din =
      (if min n (din.last - din.pos) = 0 then none
        else some (din.mem.read din.pos (min n (din.last - din.pos))),
        din.posUpdate (min n (din.last - din.pos))) := by
    rw [slice, take_rest, length_rest]
  generalize hr : min n (din.last - din.pos) = r at hmin hslice
  by_cases hzero : r = 0
  · have hrun : (ReadCall.bytes n).run residue din = (none, din) := by
      simp only [run, bytesRead, hmin, if_pos hzero]
    refine ⟨fun _ => .inl (hr.trans hzero), fun _ => ⟨?_, ?_, .inl ?_⟩⟩
    · rw [hrun, hslice, hzero]
      rfl
    · rw [hrun]
      exact h
    · rw [touched, rdlen_eq h, hr, hzero]
  · have hrun : (ReadCall.bytes n).run residue din =
        (some (din.mem.read (din.pos + r) r), din.posUpdate r) := by
      simp only [run, bytesRead, hmin, if_neg hzero]
      rfl
    rw [if_neg hzero] at hslice
    have hle : din.pos + r ≤ din.last := by omega
    constructor
    · intro hright
      have hvalue := hright.value
      rw [hrun, hslice] at hvalue
      have htouched := hright.touched
      simp only [touched, rdlen_eq h, hr] at htouched
      exact .inr (by rw [hr]; exact ⟨by omega, Option.some.inj (congrArg Prod.fst hvalue)⟩)
    · intro hfits
      simp only [Fits, hr] at hfits
      obtain ⟨hinside, hsame⟩ := hfits.resolve_left hzero
      refine ⟨?_, ?_, .inr ?_⟩
      · rw [hrun, hslice, hsame]
      · rw [hrun]
        exact hle
      · simp only [touched, rdlen_eq h, hr]
        omega

/-- A counted string that is read with `k` bytes is right when its announced length is there. -/
theorem right_counted {call : ReadCall (Option (List UInt8))} {k : ℕ} (hlt : din.pos < din.last)
    (hrun : call.run residue din = (some (din.mem.read (din.pos + 1) k), din.posUpdate (1 + k)))
    (hslice : call.slice residue din = countedSlice din)
    (htouched : call.touched din = (din.pos, 1 + k))
    (hk : k = min (din.mem din.pos).toNat (din.last - din.pos - 1) ↔
      din.pos + 1 + (din.mem din.pos).toNat ≤ din.last) :
    Right residue call din ↔ din.pos + 1 + (din.mem din.pos).toNat ≤ din.last := by
  rw [countedSlice_eq hlt] at hslice
  rw [← hk]
  constructor
  · intro hright
    have hvalue := hright.value
    rw [hrun, hslice] at hvalue
    have hpos := posUpdate_inj.1 (congrArg Prod.snd hvalue)
    omega
  · intro heq
    refine ⟨?_, ?_, .inr ?_⟩
    · rw [hrun, hslice, ← heq]
    · rw [hrun]
      simp only [posUpdate]
      omega
    · rw [htouched]
      dsimp only
      omega

theorem right_counted_end {call : ReadCall (Option (List UInt8))} (hend : din.pos = din.last)
    (hrun : call.run residue din = (none, din)) (hslice : call.slice residue din = countedSlice din)
    (htouched : (call.touched din).2 = 0) : Right residue call din := by
  refine ⟨?_, ?_, .inl htouched⟩
  · rw [hrun, hslice, countedSlice_end hend]
  · rw [hrun]
    exact hend.le

theorem right_bstring (h : din.pos ≤ din.last) :
    Right residue .bstring din ↔ Fits .bstring din := by
  rcases h.eq_or_lt with hend | hlt
  · have hover := readOver_of_lt (show din.last < din.pos + 1 by omega)
    refine iff_of_true (right_counted_end hend ?_ rfl ?_) (.inl hend)
    · simp [run, bstringRead, hover]
    · simp [touched, hover]
  · have hin := readOver_of_le (show din.pos + 1 ≤ din.last from hlt)
    rw [right_counted (k := (din.mem din.pos).toNat) hlt ?_ rfl ?_ (by omega), Fits]
    · omega
    · simp [run, bstringRead, hin, uintRead_one hlt, posUpdate, Nat.add_assoc]
    · simp [touched, hin]

theorem right_bstringDup (h : din.pos ≤ din.last) :
    Right residue .bstringDup din ↔ Fits .bstringDup din := by
  rcases h.eq_or_lt with hend | hlt
  · have hover := readOver_of_lt (show din.last < din.pos + 1 by omega)
    refine iff_of_true (right_counted_end hend ?_ rfl ?_) (.inl hend)
    · simp [run, bstringReadDup, hover]
    · simp [touched, hover]
  · have hin := readOver_of_le (show din.pos + 1 ≤ din.last from hlt)
    have hmin : (if din.rdlen < (din.mem din.pos).toNat then din.rdlen else (din.mem din.pos).toNat)
        = min (din.mem din.pos).toNat (din.last - din.pos) := by
      rw [rdlen_eq h]
      split <;> omega
    rw [right_counted (k := min (din.mem din.pos).toNat (din.last - din.pos)) hlt ?_ rfl ?_
      (by omega), Fits]
    · omega
    · simp [run, bstringReadDup, hin, uintRead_one hlt, hmin, posUpdate, Nat.add_assoc]
    · simp [touched, hin, rdlen_eq h]

theorem right_in6Addr :
    Right residue .in6Addr din ↔ Fits .in6Addr din := by
  constructor
  · intro hright
    exact hright.inside
  · intro hfits
    simp only [Fits] at hfits
    refine ⟨?_, hfits, .inr ⟨le_rfl, hfits⟩⟩
    rw [run, slice, take_rest, length_rest, Nat.min_eq_left (by omega)]

theorem right_rbytes (h : din.pos ≤ din.last) : Right residue .rbytes din := by
  have hrest : din.rest = din.mem.read din.pos (din.last - din.pos) := rfl
  by_cases hend : din.last - din.pos = 0
  · refine ⟨?_, ?_, .inl (by rw [touched, rdlen_eq h, hend])⟩
    · have hnil : din.rest = [] := by rw [hrest, hend]; rfl
      rw [run, rbytesRead, rdlen_eq h, if_pos hend, slice, hnil]
      rfl
    · rw [run, rbytesRead, rdlen_eq h, if_pos hend]
      exact h
  · have hlast : din.pos + (din.last - din.pos) = din.last := by omega
    refine ⟨?_, ?_, .inr (by rw [touched, rdlen_eq h]; exact ⟨le_rfl, hlast.le⟩)⟩
    · have hne : din.rest ≠ [] := by
        intro hnil
        have hlength := congrArg List.length hnil
        simp only [length_rest, List.length_nil] at hlength
        exact hend hlength
      rw [run, rbytesRead, rdlen_eq h, if_neg hend, slice, if_neg hne, length_rest, posUpdate,
        hlast, hrest]
    · rw [run, rbytesRead, rdlen_eq h, if_neg hend]

theorem right_name (h : din.pos ≤ din.last) : Right residue .name din := by
  refine ⟨rfl, ?_, .inl rfl⟩
  simp only [run, nameParse]
  cases hparse : dnsNameParse residue ⟨din.mem.read 0 din.last, din.pos⟩ with
  | none => exact h
  | some parsed =>
    obtain ⟨dname, d⟩ := parsed
    have hmoved := moved_name (by simpa using h) hparse
    simpa using hmoved.2.2

theorem right_iff_fits (h : din.pos ≤ din.last) {β : Type} (call : ReadCall β) :
    Right residue call din ↔ Fits call din := by
  cases call with
  | uint width => exact right_uint h width
  | bstring => exact right_bstring h
  | bstringDup => exact right_bstringDup h
  | bytes n => exact right_bytes h n
  | rbytes => exact iff_of_true (right_rbytes h) trivial
  | in6Addr => exact right_in6Addr
  | name => exact iff_of_true (right_name h) trivial
  | rdlen =>
    refine iff_of_true ⟨?_, h, .inl rfl⟩ trivial
    rw [run, slice, rdlen_eq h, length_rest]
  | readOver sz =>
    refine iff_of_true ⟨?_, h, .inl rfl⟩ trivial
    rw [run, slice, length_rest, RdataInput.readOver]
    congr 1
    exact decide_eq_decide.2 (by omega)

end Calls

end ReadCall

/-- The record of `dlen` bytes at the address `data`. -/
def rdataInputInit (mem : Memory) (data dlen : ℕ) : RdataInput := ⟨mem, data, data + dlen⟩

/-- Every read of the program is right, and so the program has the values that stand in the
record. -/
structure ReadsRight (residue : ℕ → ℕ → UInt8) {α : Type} (p : Calls ReadCall α)
    (din : RdataInput) : Prop where
  each : p.Along (ReadCall.run residue) (ReadCall.Right residue) din
  values : p.run (ReadCall.run residue) din = p.run (ReadCall.slice residue) din

theorem ReadCall.Right.inside_last {residue : ℕ → ℕ → UInt8} {β : Type} {call : ReadCall β}
    {din : RdataInput} (h : call.Right residue din) :
    (call.run residue din).2.pos ≤ (call.run residue din).2.last := by
  have hlast : (call.run residue din).2.last = din.last := by
    rw [h.value]
    cases call <;> simp only [ReadCall.slice, RdataInput.posUpdate]
    · rw [ReadCall.countedSlice]
      split <;> rfl
    · rw [ReadCall.countedSlice]
      split <;> rfl
    · rw [ReadCall.nameParse]
      split <;> rfl
  rw [hlast]
  exact h.inside

theorem readsRight_iff {residue : ℕ → ℕ → UInt8} {α : Type} {p : Calls ReadCall α}
    {din : RdataInput}
    (h : din.pos ≤ din.last) :
    ReadsRight residue p din ↔ p.Along (ReadCall.run residue) ReadCall.Fits din := by
  constructor
  · intro hright
    exact hright.each.imp (fun din => din.pos ≤ din.last) (fun _ hcall => hcall.inside_last)
      (fun hdin hcall => (ReadCall.right_iff_fits hdin _).1 hcall) h
  · intro hfits
    have heach : p.Along (ReadCall.run residue) (ReadCall.Right residue) din := by
      refine hfits.imp (fun din => din.pos ≤ din.last) ?_ ?_ h
      · exact fun hdin hcall => ((ReadCall.right_iff_fits hdin _).2 hcall).inside_last
      · exact fun hdin hcall => (ReadCall.right_iff_fits hdin _).2 hcall
    refine ⟨heach, Calls.run_congr (heach.imp (fun _ => True) (fun _ _ => trivial) ?_ trivial)⟩
    exact fun _ hcall => hcall.value

end CloudHands.Dns
