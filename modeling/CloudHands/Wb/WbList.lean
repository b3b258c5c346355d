import CloudHands.Lib.Memory

/-!
# The white and black lists

`WBList/ch_wb_list.c` with its two kinds of entries, `ch_wb_list_ip.c` and
`ch_wb_list_str.c`. A list is a header and an area of slots of one size in a mapped
file. Addresses count from `entries`, the first byte behind the header. A store behind
the end of the mapping does not return.
-/

namespace CloudHands.Wb

open Lib

/-- `ch_wb_list_header_t` and the area behind it; `endPos` is `wbm.end`. -/
structure WbList where
  isOn : ℤ
  freeEntryPos : ℕ
  entrySize : ℕ
  nextId : ℕ
  endPos : ℕ
  mem : Memory

/-- What a list asks of its entries. `add` gives the bytes written behind the id, none
when it returns -1, and `value` is the value such bytes stand for. -/
structure EntryKind (V M : Type) where
  sizes : ℕ → Prop
  add : ℕ → V → Option (List UInt8)
  isMatch : Memory → ℕ → M → Bool
  value : ℕ → Memory → ℕ → V
  holds : V → M → Bool
  add_fits : ∀ {size v bs}, sizes size → add size v = some bs → 8 + bs.length ≤ size
  value_of_add : ∀ {size v bs mem a}, sizes size → add size v = some bs →
    mem.read a bs.length = bs → value size mem a = v
  isMatch_of_add : ∀ {size v bs mem a} (m : M), add size v = some bs →
    mem.read a bs.length = bs → isMatch mem a m = holds v m

namespace WbList

def empty (l : WbList) : Bool := l.freeEntryPos == 0

def idAt (l : WbList) (entry : ℕ) : ℕ := ofLittleEndian (l.mem.read entry 8)

/-- The product is one of `uint32_t`. -/
def entryGet (l : WbList) (indx : ℕ) : Option ℕ :=
  let entry := indx * l.entrySize % 2 ^ 32
  if l.endPos ≤ entry then none else some entry

def entryFirst (l : WbList) : Option ℕ := if l.freeEntryPos = 0 then none else some 0

def entryNext (l : WbList) (entry : ℕ) : Option ℕ :=
  match l.entryGet l.freeEntryPos with
  | none => none -- every address is at or above NULL
  | some freeEntry =>
    let nextEntry := entry + l.entrySize
    if freeEntry ≤ nextEntry then none else some nextEntry

/-- The entries a `ch_wb_list_for_each_entry` goes through from `entry` on. -/
def walk (l : WbList) : ℕ → ℕ → List ℕ
  | 0, _ => []
  | fuel + 1, entry =>
    entry ::
      match l.entryNext entry with
      | none => []
      | some nextEntry => walk l fuel nextEntry

def forEachEntry (l : WbList) : List ℕ :=
  match l.entryFirst with
  | none => []
  | some entry => l.walk (l.endPos + 1) entry

def store (l : WbList) (a : ℕ) (bs : List UInt8) : Option WbList :=
  if l.endPos < a + bs.length then none else some { l with mem := l.mem.write a bs }

def allocId (l : WbList) : ℕ × WbList :=
  (l.nextId, { l with nextId := (l.nextId + 1) % 2 ^ 64 % (2 ^ 64 - 1) })

section Operations

variable {V M : Type} (kind : EntryKind V M)

def add (l : WbList) (v : V) : Option (WbList × ℕ) :=
  match l.entryGet l.freeEntryPos with
  | none => some (l, 0)
  | some entry =>
    let (id, l) := l.allocId
    (l.store entry (littleEndian 8 id)).bind fun l =>
      match kind.add l.entrySize v with
      | none => some (l, 0)
      | some bs =>
        (l.store (entry + 8) bs).map fun l =>
          ({ l with freeEntryPos := (l.freeEntryPos + 1) % 2 ^ 32 }, l.idAt entry)

/-- `entries_move`: the id of each entry goes one entry back, and only the id does. -/
def entriesMove : ℕ → WbList → ℕ → WbList
  | 0, l, _ => l
  | fuel + 1, l, entry =>
    match l.entryNext entry with
    | none => l
    | some nextEntry =>
      entriesMove fuel { l with mem := l.mem.write entry (littleEndian 8 (l.idAt nextEntry)) }
        nextEntry

def findEntry (l : WbList) (id : ℕ) : Option ℕ :=
  l.forEachEntry.find? fun entry => l.idAt entry == id

def del (l : WbList) (id : ℕ) : WbList :=
  if l.empty then l
  else
    match l.findEntry id with
    | none => l
    | some entry =>
      let l := entriesMove (l.endPos + 1) l entry
      { l with freeEntryPos := l.freeEntryPos - 1 }

def isMatch (l : WbList) (m : M) : Bool :=
  if l.empty || l.isOn == 0 then false
  else l.forEachEntry.any fun entry => kind.isMatch l.mem (entry + 8) m

end Operations

def isOnSet (l : WbList) (v : ℤ) : WbList := { l with isOn := v }

/-- `ch_wb_memory_init` and `ch_wb_list_init` for a file that does not exist yet. -/
def init (pgSize msize : ℕ) (entrySize : UInt32) : Option WbList :=
  let rMsize := (msize + (pgSize - 1)) % 2 ^ 64 / pgSize * pgSize
  if msize = 0 ∨ rMsize ≤ 24 ∨ entrySize = 0 then none
  else some ⟨0, 0, entrySize.toNat, 12345, rMsize - 24, fun _ => 0⟩

end WbList

/-- `ch_wb_list_ip_add_value_t`, and the fields of `ch_wb_list_ip_entry_t` behind the id. -/
structure IpValue where
  netmask : UInt32
  ipStart : UInt32
  ipEnd : UInt32
  portStart : UInt16
  portEnd : UInt16
  deriving DecidableEq

structure IpMatchValue where
  ip : UInt32
  port : UInt16

def netMaskAnd (v netmask : UInt32) : UInt32 := v &&& netmask

def IpValue.bytes (v : IpValue) : List UInt8 :=
  littleEndian 4 v.netmask.toNat ++ (littleEndian 4 v.ipStart.toNat ++
    (littleEndian 4 v.ipEnd.toNat ++ (littleEndian 2 v.portStart.toNat ++
      littleEndian 2 v.portEnd.toNat)))

def listIpAdd (_entrySize : ℕ) (v : IpValue) : Option (List UInt8) :=
  if v.ipStart > v.ipEnd || v.portStart > v.portEnd then none
  else if netMaskAnd v.ipStart v.netmask != netMaskAnd v.ipEnd v.netmask then none
  else some v.bytes

def ipEntry (mem : Memory) (a : ℕ) : IpValue where
  netmask := UInt32.ofNat (ofLittleEndian (mem.read a 4))
  ipStart := UInt32.ofNat (ofLittleEndian (mem.read (a + 4) 4))
  ipEnd := UInt32.ofNat (ofLittleEndian (mem.read (a + 8) 4))
  portStart := UInt16.ofNat (ofLittleEndian (mem.read (a + 12) 2))
  portEnd := UInt16.ofNat (ofLittleEndian (mem.read (a + 14) 2))

def IpValue.isMatch (e : IpValue) (mv : IpMatchValue) : Bool :=
  let ipIsMatch :=
    if e.ipStart != 0 || e.ipEnd != 0 then
      if netMaskAnd e.ipStart e.netmask != netMaskAnd mv.ip e.netmask then false
      else decide (e.ipStart ≤ mv.ip) && decide (mv.ip ≤ e.ipEnd)
    else true
  let portIsMatch :=
    if e.portStart != 0 || e.portEnd != 0 then
      decide (e.portStart ≤ mv.port) && decide (mv.port ≤ e.portEnd)
    else true
  ipIsMatch && portIsMatch

def listIpIsMatch (mem : Memory) (a : ℕ) (mv : IpMatchValue) : Bool := (ipEntry mem a).isMatch mv

theorem ipEntry_of_bytes {mem : Memory} {a : ℕ} {v : IpValue}
    (h : mem.read a v.bytes.length = v.bytes) : ipEntry mem a = v := by
  obtain ⟨hmask, h⟩ := Memory.read_of_append h
  obtain ⟨hstart, h⟩ := Memory.read_of_append h
  obtain ⟨hend, h⟩ := Memory.read_of_append h
  obtain ⟨hport, hport'⟩ := Memory.read_of_append h
  simp only [length_littleEndian, Nat.add_assoc, Nat.reduceAdd] at hmask hstart hend hport hport'
  simp only [ipEntry, hmask, hstart, hend, hport, hport']
  rw [ofLittleEndian_littleEndian v.netmask.toNat_lt,
    ofLittleEndian_littleEndian v.ipStart.toNat_lt,
    ofLittleEndian_littleEndian v.ipEnd.toNat_lt, ofLittleEndian_littleEndian v.portStart.toNat_lt,
    ofLittleEndian_littleEndian v.portEnd.toNat_lt]
  simp

theorem listIpAdd_eq_some {size : ℕ} {v : IpValue} {bs : List UInt8}
    (h : listIpAdd size v = some bs) : bs = v.bytes := by
  unfold listIpAdd at h
  split_ifs at h
  exact (Option.some.inj h).symm

/-- `sizeof(ch_wb_list_ip_entry_t)` is 24. -/
def ipKind : EntryKind IpValue IpMatchValue where
  sizes size := size = 24
  add := listIpAdd
  isMatch := listIpIsMatch
  value _ := ipEntry
  holds := IpValue.isMatch
  add_fits := by
    intro size v bs hsize h
    rw [listIpAdd_eq_some h]
    simp [IpValue.bytes, hsize]
  value_of_add := by
    intro size v bs mem a _ h hread
    rw [listIpAdd_eq_some h] at hread
    exact ipEntry_of_bytes hread
  isMatch_of_add := by
    intro size v bs mem a m h hread
    rw [listIpAdd_eq_some h] at hread
    rw [listIpIsMatch, ipEntry_of_bytes hread]

def listIpInit (pgSize msize : ℕ) : Option WbList := WbList.init pgSize msize 24

/-- A `char *`: none is NULL, and a string holds no NUL. -/
abbrev CString : Type := Option {s : List UInt8 // 0 ∉ s}

def listStrAdd (entrySize : ℕ) : CString → Option (List UInt8)
  | none => none
  | some av =>
    if av.1.length = 0 then none
    else if av.1.length + 1 + 8 > entrySize then none
    else some (av.1 ++ [0])

/-- `strncmp(value, mv, strlen(mv)) == 0`: no byte compared is the NUL of `mv`. -/
def strncmp (mem : Memory) : ℕ → List UInt8 → Bool
  | _, [] => true
  | a, c :: cs => mem a == c && strncmp mem (a + 1) cs

def listStrIsMatch (mem : Memory) (a : ℕ) : CString → Bool
  | none => false
  | some mv => if mv.1.length = 0 then false else strncmp mem a mv.1

def strEntry (entrySize : ℕ) (mem : Memory) (a : ℕ) : CString :=
  some ⟨(mem.read a (entrySize - 8)).takeWhile (· != 0), by
    intro h
    simpa using List.all_eq_true.1 (List.all_takeWhile) 0 h⟩

def strHolds : CString → CString → Bool
  | some v, some mv => mv.1.length != 0 && mv.1.isPrefixOf v.1
  | _, _ => false

theorem strEntry_of_bytes {size : ℕ} {mem : Memory} {a : ℕ} {v : {s : List UInt8 // 0 ∉ s}}
    (hsize : v.1.length + 1 + 8 ≤ size) (h : mem.read a (v.1 ++ [0]).length = v.1 ++ [0]) :
    strEntry size mem a = some v := by
  have hlen : (v.1 ++ [0]).length ≤ size - 8 := by
    rw [List.length_append, List.length_singleton]
    omega
  have htake : (mem.read a (size - 8)).take (v.1 ++ [0]).length = v.1 ++ [0] := by
    rw [Memory.take_read mem a hlen, h]
  have hsplit := List.take_append_drop (v.1 ++ [0]).length (mem.read a (size - 8))
  have hne : ∀ c ∈ v.1, (c != 0) = true := by
    intro c hc
    rw [bne_iff_ne]
    rintro rfl
    exact v.2 hc
  apply congrArg some
  apply Subtype.ext
  change (mem.read a (size - 8)).takeWhile (· != 0) = v.1
  rw [← hsplit, htake, List.append_assoc, List.takeWhile_append_of_pos hne]
  simp

theorem strncmp_of_bytes {mem : Memory} {a : ℕ} {v mv : List UInt8} (hmv : 0 ∉ mv)
    (h : mem.read a (v ++ [0]).length = v ++ [0]) : strncmp mem a mv = mv.isPrefixOf v := by
  induction mv generalizing a v with
  | nil => simp [strncmp]
  | cons c cs ih =>
    obtain ⟨hc, hcs⟩ : 0 ≠ c ∧ 0 ∉ cs := by simpa using hmv
    cases v with
    | nil =>
      have ha : mem a = 0 := by simpa [Memory.read] using h
      simp [strncmp, ha, hc]
    | cons b v =>
      obtain ⟨hb, htail⟩ := @Memory.read_of_append mem a [b] (v ++ [0]) h
      have ha : mem a = b := by simpa [Memory.read] using hb
      have ih' : strncmp mem (a + 1) cs = cs.isPrefixOf v := ih hcs htail
      rw [strncmp, ih', ha, List.isPrefixOf, Bool.beq_comm]

theorem listStrAdd_eq_some {size : ℕ} {v : CString} {bs : List UInt8}
    (h : listStrAdd size v = some bs) :
    ∃ s, v = some s ∧ s.1.length + 1 + 8 ≤ size ∧ bs = s.1 ++ [0] := by
  cases v with
  | none => cases h
  | some s =>
    simp only [listStrAdd] at h
    split_ifs at h with hempty hsize
    exact ⟨s, rfl, Nat.not_lt.1 hsize, (Option.some.inj h).symm⟩

def strKind : EntryKind CString CString where
  sizes _ := True
  add := listStrAdd
  isMatch := listStrIsMatch
  value := strEntry
  holds := strHolds
  add_fits := by
    intro size v bs _ h
    obtain ⟨s, -, hsize, rfl⟩ := listStrAdd_eq_some h
    rw [List.length_append, List.length_singleton]
    omega
  value_of_add := by
    intro size v bs mem a _ h hread
    obtain ⟨s, rfl, hsize, rfl⟩ := listStrAdd_eq_some h
    exact strEntry_of_bytes hsize hread
  isMatch_of_add := by
    intro size v bs mem a m h hread
    obtain ⟨s, rfl, -, rfl⟩ := listStrAdd_eq_some h
    cases m with
    | none => rfl
    | some mv =>
      rw [listStrIsMatch, strHolds, strncmp_of_bytes mv.2 hread]
      cases hlen : mv.1.length <;> simp

def listStrInit (pgSize msize maxStrLen : ℕ) : Option WbList :=
  WbList.init pgSize msize (UInt32.ofNat (8 + maxStrLen + 1))

end CloudHands.Wb
