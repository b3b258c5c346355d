import CloudHands.Lib.Arena
import CloudHands.Lib.BigEndian

/-!
# A heap of byte blocks

A pointer is a block and an offset in it. An access that leaves its block or goes to a block that
is not alive has no result, and neither has a copy between ranges that overlap.
-/

namespace CloudHands.Lib

structure Ptr where
  block : ℕ
  offset : ℕ
deriving DecidableEq, Repr

def Ptr.add (p : Ptr) (n : ℕ) : Ptr := ⟨p.block, p.offset + n⟩

@[simp] theorem Ptr.block_add (p : Ptr) (n : ℕ) : (p.add n).block = p.block := rfl

@[simp] theorem Ptr.offset_add (p : Ptr) (n : ℕ) : (p.add n).offset = p.offset + n := rfl

theorem Ptr.add_add (p : Ptr) (n k : ℕ) : (p.add n).add k = p.add (n + k) := by
  rw [Ptr.add, Ptr.add, Ptr.add, Nat.add_assoc]

abbrev ByteHeap := Arena (List UInt8)

structure Allocator where
  fresh : ByteHeap → ℕ → List UInt8
  length_fresh : ∀ h n, (fresh h n).length = n

def Allocator.zeroed : Allocator where
  fresh _ n := List.replicate n 0
  length_fresh _ _ := List.length_replicate

namespace ByteHeap

def malloc (al : Allocator) (h : ByteHeap) (n : ℕ) : Ptr × ByteHeap :=
  (⟨h.next, 0⟩, h.alloc (al.fresh h n))

def calloc (h : ByteHeap) (n : ℕ) : Ptr × ByteHeap := (⟨h.next, 0⟩, h.alloc (List.replicate n 0))

def release (h : ByteHeap) (p : Ptr) : Option ByteHeap :=
  if p.offset = 0 then h.free p.block else none

def load (h : ByteHeap) (p : Ptr) (n : ℕ) : Option (List UInt8) :=
  (h.cell p.block).bind fun bs =>
    if p.offset + n ≤ bs.length then some ((bs.drop p.offset).take n) else none

def store (h : ByteHeap) (p : Ptr) (data : List UInt8) : Option ByteHeap :=
  (h.cell p.block).bind fun bs =>
    if p.offset + data.length ≤ bs.length then h.write p.block (overwrite bs p.offset data)
    else none

/-- The `n` bytes at `p` and the `m` bytes at `q` have none in common. -/
def Clear (p : Ptr) (n : ℕ) (q : Ptr) (m : ℕ) : Prop :=
  p.block ≠ q.block ∨ p.offset + n ≤ q.offset ∨ q.offset + m ≤ p.offset

instance (p q : Ptr) (n m : ℕ) : Decidable (Clear p n q m) :=
  inferInstanceAs
    (Decidable (p.block ≠ q.block ∨ p.offset + n ≤ q.offset ∨ q.offset + m ≤ p.offset))

def memcpy (h : ByteHeap) (dst src : Ptr) (n : ℕ) : Option ByteHeap :=
  if Clear dst n src n then (h.load src n).bind (h.store dst) else none

def size (h : ByteHeap) (i : ℕ) : Option ℕ := (h.cell i).map List.length

/-- The `n` bytes at `p` lie in a block that is alive. -/
def Room (h : ByteHeap) (p : Ptr) (n : ℕ) : Prop :=
  ∃ k, h.size p.block = some k ∧ p.offset + n ≤ k

variable {h h' : ByteHeap} {p q dst src : Ptr} {n m : ℕ} {bs data : List UInt8}

theorem Room.mono (hroom : h.Room p n) (hle : m ≤ n) : h.Room p m := by
  obtain ⟨k, hk, hfits⟩ := hroom
  exact ⟨k, hk, by omega⟩

theorem Room.add (hroom : h.Room p (n + m)) : h.Room (p.add n) m := by
  obtain ⟨k, hk, hfits⟩ := hroom
  exact ⟨k, hk, by rw [Ptr.offset_add]; omega⟩

theorem Room.congr (hroom : h.Room p n) (hsize : h'.size p.block = h.size p.block) :
    h'.Room p n := by
  rwa [Room, hsize]

theorem Room.lt_next (hroom : h.Room p n) : p.block < h.next := by
  obtain ⟨k, hk, -⟩ := hroom
  obtain ⟨bs, hcell, -⟩ := Option.map_eq_some_iff.1 hk
  exact Arena.lt_next hcell

theorem size_congr {i : ℕ} (hcell : h'.cell i = h.cell i) : h'.size i = h.size i := by
  rw [size, hcell, size]

theorem load_eq (hcell : h.cell p.block = some bs) (hfits : p.offset + n ≤ bs.length) :
    h.load p n = some ((bs.drop p.offset).take n) := by
  rw [load, hcell, Option.bind_some, if_pos hfits]

theorem cell_of_load (hload : h.load p n = some data) :
    ∃ bs, h.cell p.block = some bs ∧ p.offset + n ≤ bs.length ∧
      data = (bs.drop p.offset).take n := by
  obtain ⟨bs, hcell, hbs⟩ := Option.bind_eq_some_iff.1 hload
  simp only [Option.ite_none_right_eq_some, Option.some.injEq] at hbs
  exact ⟨bs, hcell, hbs.1, hbs.2.symm⟩

theorem length_of_load (hload : h.load p n = some data) : data.length = n := by
  obtain ⟨bs, -, hfits, rfl⟩ := cell_of_load hload
  rw [List.length_take, List.length_drop]
  omega

theorem load_congr (hcell : h'.cell p.block = h.cell p.block) (n : ℕ) :
    h'.load p n = h.load p n := by
  rw [load, hcell, load]

theorem Room.load (hroom : h.Room p n) : ∃ data, h.load p n = some data := by
  obtain ⟨k, hk, hfits⟩ := hroom
  obtain ⟨bs, hcell, rfl⟩ := Option.map_eq_some_iff.1 hk
  exact ⟨_, load_eq hcell hfits⟩

theorem room_of_load (hload : h.load p n = some data) : h.Room p n := by
  obtain ⟨bs, hcell, hfits, -⟩ := cell_of_load hload
  exact ⟨bs.length, by rw [size, hcell, Option.map_some], hfits⟩

theorem load_add (hload : h.load p n = some data) {i k : ℕ} (hik : i + k ≤ n) :
    h.load (p.add i) k = some ((data.drop i).take k) := by
  obtain ⟨bs, hcell, hfits, rfl⟩ := cell_of_load hload
  have hfits' : (p.add i).offset + k ≤ bs.length := by
    rw [Ptr.offset_add]
    omega
  rw [load_eq (p := p.add i) hcell hfits', Ptr.offset_add, List.drop_take, List.drop_drop,
    List.take_take, min_eq_left (by omega)]

theorem load_append {data' : List UInt8} (hload : h.load p n = some data)
    (hload' : h.load (p.add n) m = some data') : h.load p (n + m) = some (data ++ data') := by
  obtain ⟨bs, hcell, hfits, rfl⟩ := cell_of_load hload
  obtain ⟨bs', hcell', hfits', rfl⟩ := cell_of_load hload'
  rw [Ptr.block_add, hcell] at hcell'
  obtain rfl := Option.some.inj hcell'
  rw [Ptr.offset_add] at hfits' ⊢
  rw [load_eq hcell (by omega), ← List.drop_drop, List.take_add]

/-- What a write of `data` at `p` does. -/
structure Stored (h : ByteHeap) (p : Ptr) (data : List UInt8) (h' : ByteHeap) : Prop where
  load : h'.load p data.length = some data
  keep : ∀ q n, Clear p data.length q n → h'.load q n = h.load q n
  size : h'.size = h.size
  next : h'.next = h.next

theorem Stored.room (hstored : Stored h p data h') (hroom : h.Room q n) : h'.Room q n :=
  hroom.congr (congrFun hstored.size q.block)

theorem getElem?_overwrite {i : ℕ} (hfits : n + data.length ≤ bs.length)
    (hi : i < n ∨ n + data.length ≤ i) : (overwrite bs n data)[i]? = bs[i]? := by
  rcases hi with hi | hi
  · rw [overwrite, List.append_assoc, List.getElem?_append_left (by rw [List.length_take]; omega),
      List.getElem?_take_of_lt hi]
  · have hlen : (bs.take n ++ data).length = n + data.length := by
      rw [List.length_append, List.length_take]
      omega
    rw [overwrite, List.getElem?_append_right (by omega), hlen, List.getElem?_drop,
      Nat.add_sub_cancel' hi]

theorem keep_overwrite (hcell : h.cell p.block = some bs)
    (hfits : p.offset + data.length ≤ bs.length)
    (hcells : h'.cell = Function.update h.cell p.block (some (overwrite bs p.offset data)))
    (hclear : Clear p data.length q n) : h'.load q n = h.load q n := by
  by_cases hblock : q.block = p.block
  · have hcell' : h'.cell q.block = some (overwrite bs p.offset data) := by
      rw [hcells, hblock, Function.update_self]
    have heq : ((overwrite bs p.offset data).drop q.offset).take n = (bs.drop q.offset).take n := by
      refine List.ext_getElem? fun i => ?_
      rcases Nat.lt_or_ge i n with hi | hi
      · have hout : q.offset + i < p.offset ∨ p.offset + data.length ≤ q.offset + i := by
          rcases hclear with hne | hbelow | habove
          · exact absurd hblock.symm hne
          · exact .inr (by omega)
          · exact .inl (by omega)
        rw [List.getElem?_take_of_lt hi, List.getElem?_take_of_lt hi, List.getElem?_drop,
          List.getElem?_drop, getElem?_overwrite hfits hout]
      · rw [List.getElem?_take_eq_none hi, List.getElem?_take_eq_none hi]
    rw [ByteHeap.load, ByteHeap.load, hcell', hblock, hcell, Option.bind_some, Option.bind_some,
      length_overwrite hfits, heq]
  · exact load_congr (by rw [hcells, Function.update_of_ne hblock]) n

theorem store_ok (hroom : h.Room p data.length) :
    ∃ h', h.store p data = some h' ∧ Stored h p data h' := by
  obtain ⟨k, hk, hfits⟩ := hroom
  obtain ⟨bs, hcell, rfl⟩ := Option.map_eq_some_iff.1 hk
  obtain ⟨h', hwrite, hcells, hnext, -⟩ := Arena.write_eq hcell (overwrite bs p.offset data)
  have hcell' : h'.cell p.block = some (overwrite bs p.offset data) := by
    rw [hcells, Function.update_self]
  have hlen := length_overwrite hfits
  refine ⟨h', ?_, ?_, fun q n => keep_overwrite hcell hfits hcells, ?_, hnext⟩
  · rw [store, hcell, Option.bind_some, if_pos hfits, hwrite]
  · have hfits' : p.offset + data.length ≤ (overwrite bs p.offset data).length := by rwa [hlen]
    rw [load_eq hcell' hfits', drop_overwrite (by omega), List.take_left]
  · funext i
    by_cases hi : i = p.block
    · rw [hi, size, size, hcell', hcell, Option.map_some, Option.map_some, hlen]
    · rw [size, hcells, Function.update_of_ne hi, size]

theorem memcpy_ok (hclear : Clear dst n src n) (hload : h.load src n = some data)
    (hroom : h.Room dst n) : ∃ h', h.memcpy dst src n = some h' ∧ Stored h dst data h' := by
  have hroom' : h.Room dst data.length := by rwa [length_of_load hload]
  obtain ⟨h', hstore, hstored⟩ := store_ok hroom'
  exact ⟨h', by rw [memcpy, if_pos hclear, hload, Option.bind_some, hstore], hstored⟩

theorem cell_alloc_of_lt {i : ℕ} (hi : i < h.next) (bs : List UInt8) :
    (h.alloc bs).cell i = h.cell i := by
  rw [Arena.alloc_cell, Function.update_of_ne hi.ne]

theorem load_alloc_self (h : ByteHeap) (bs : List UInt8) :
    load (h.alloc bs) ⟨h.next, 0⟩ bs.length = some bs := by
  have hcell : (h.alloc bs).cell (⟨h.next, 0⟩ : Ptr).block = some bs := by
    rw [Arena.alloc_cell, Function.update_self]
  rw [load_eq hcell (by simp), List.drop_zero, List.take_length]

theorem room_alloc_self (h : ByteHeap) (bs : List UInt8) :
    Room (h.alloc bs) ⟨h.next, 0⟩ bs.length :=
  room_of_load (load_alloc_self h bs)

theorem room_fresh (al : Allocator) (h : ByteHeap) (n : ℕ) :
    Room (h.alloc (al.fresh h n)) ⟨h.next, 0⟩ n := by
  have hroom := room_alloc_self h (al.fresh h n)
  rwa [al.length_fresh] at hroom

theorem Room.alloc (hroom : h.Room p n) (bs : List UInt8) : Room (h.alloc bs) p n :=
  hroom.congr (size_congr (cell_alloc_of_lt hroom.lt_next bs))

theorem load_alloc (hload : h.load p n = some data) (bs : List UInt8) :
    load (h.alloc bs) p n = some data := by
  rw [load_congr (cell_alloc_of_lt (room_of_load hload).lt_next bs), hload]

theorem release_ok (hroom : h.Room p n) (hstart : p.offset = 0) :
    ∃ h', h.release p = some h' ∧ (∀ i, i ≠ p.block → h'.cell i = h.cell i) ∧
      h'.next = h.next := by
  obtain ⟨k, hk, -⟩ := hroom
  obtain ⟨bs, hcell, -⟩ := Option.map_eq_some_iff.1 hk
  obtain ⟨h', hfree, hcells, hnext, -⟩ := Arena.free_eq hcell
  refine ⟨h', by rw [release, if_pos hstart, hfree], fun i hi => ?_, hnext⟩
  rw [hcells, Function.update_of_ne hi]

end ByteHeap

end CloudHands.Lib
