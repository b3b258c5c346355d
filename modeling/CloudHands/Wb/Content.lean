import CloudHands.Lib.Run
import CloudHands.Wb.WbList

/-!
# What a list holds over a run

The pairs of the successful adds that no delete has taken out, against the slots of the
list. Deleting moves the ids and not the values, and a walk over a full list ends behind
its first entry, so the slots follow the pairs as long as no delete moves an id onto
another value and no walk has to find an entry it does not come to.
-/

namespace CloudHands.Wb

open Lib

inductive Op (V : Type)
  | add (v : V)
  | del (id : ℕ)
  | isOnSet (v : ℤ)

section Definitions

variable {V M : Type} (kind : EntryKind V M)

def step (s : Option WbList) : Op V → Option WbList
  | .add v => s.bind fun l => (l.add kind v).map Prod.fst
  | .del id => s.map fun l => l.del id
  | .isOnSet v => s.map fun l => l.isOnSet v

def liveStep (pairs : List (ℕ × V)) : Option WbList × Op V → List (ℕ × V)
  | (some l, .add v) =>
    match l.add kind v with
    | some (_, id) => if id = 0 then pairs else pairs ++ [(id, v)]
    | none => pairs
  | (_, .del id) => pairs.filter fun p => p.1 ≠ id
  | _ => pairs

/-- The pairs of the successful adds not yet deleted, in the order of the adds. -/
def live (history : List (Option WbList × Op V)) : List (ℕ × V) :=
  history.foldl (liveStep kind) []

def WbList.entryAt (l : WbList) (i : ℕ) : ℕ × V :=
  (l.idAt (i * l.entrySize), kind.value l.entrySize l.mem (i * l.entrySize + 8))

def WbList.content (l : WbList) : List (ℕ × V) := (List.range l.freeEntryPos).map (l.entryAt kind)

def WbList.Reaches (l : WbList) : Prop :=
  l.freeEntryPos ≤ 1 ∨
    (l.freeEntryPos * l.entrySize < 2 ^ 32 ∧ l.freeEntryPos * l.entrySize < l.endPos)

def WbList.AddOk (l : WbList) (v : V) : Prop :=
  l.freeEntryPos * l.entrySize % 2 ^ 32 < l.endPos →
    l.freeEntryPos * l.entrySize < 2 ^ 32 ∧ l.freeEntryPos * l.entrySize + 8 ≤ l.endPos ∧
    ∀ bs ∈ kind.add l.entrySize v, l.freeEntryPos * l.entrySize + 8 + bs.length ≤ l.endPos ∧
      l.nextId ≠ 0 ∧ l.nextId ∉ (l.content kind).map Prod.fst

def WbList.DelOk (l : WbList) (id : ℕ) : Prop :=
  id ∉ (l.content kind).map Prod.fst ∨
    (l.Reaches ∧ ∀ j < l.freeEntryPos, ∀ i ≤ j, (l.entryAt kind i).1 = id →
      (l.entryAt kind j).2 = (l.entryAt kind i).2)

def OpOk : Option WbList → Op V → Prop
  | some l, .add v => l.AddOk kind v
  | some l, .del id => l.DelOk kind id
  | _, _ => True

/-- A walk comes to every entry, or the first entry matches when any does. -/
def WbList.MatchOk (l : WbList) (m : M) : Prop :=
  l.Reaches ∨ ((∃ p ∈ l.content kind, kind.holds p.2 m = true) →
    kind.holds (l.entryAt kind 0).2 m = true)

instance (l : WbList) : Decidable l.Reaches := inferInstanceAs (Decidable (_ ∨ _))

instance (l : WbList) (v : V) : Decidable (l.AddOk kind v) := inferInstanceAs (Decidable (_ → _))

instance [DecidableEq V] (l : WbList) (id : ℕ) : Decidable (l.DelOk kind id) :=
  inferInstanceAs (Decidable (_ ∨ _))

instance (l : WbList) (m : M) : Decidable (l.MatchOk kind m) := inferInstanceAs (Decidable (_ ∨ _))

instance [DecidableEq V] : (s : Option WbList) → (op : Op V) → Decidable (OpOk kind s op)
  | some l, .add v => inferInstanceAs (Decidable (l.AddOk kind v))
  | some l, .del id => inferInstanceAs (Decidable (l.DelOk kind id))
  | some _, .isOnSet _ => .isTrue trivial
  | none, .add _ => .isTrue trivial
  | none, .del _ => .isTrue trivial
  | none, .isOnSet _ => .isTrue trivial

end Definitions

section Walk

variable {l : WbList}

theorem entryNext_eq_some {i next : ℕ} (h : l.entryNext (i * l.entrySize) = some next) :
    next = (i + 1) * l.entrySize ∧ i + 1 < l.freeEntryPos := by
  unfold WbList.entryNext WbList.entryGet at h
  dsimp only at h
  split_ifs at h with hend
  dsimp only at h
  split_ifs at h with hfree
  obtain rfl := Option.some.inj h
  have hnext : i * l.entrySize + l.entrySize = (i + 1) * l.entrySize := by ring
  have hmod := Nat.mod_le (l.freeEntryPos * l.entrySize) (2 ^ 32)
  refine ⟨hnext, ?_⟩
  apply lt_of_mul_lt_mul_right _ (Nat.zero_le l.entrySize)
  omega

theorem entryNext_of_reaches (hpos : 0 < l.entrySize) (h : l.Reaches) {i : ℕ}
    (hi : i + 1 < l.freeEntryPos) :
    l.entryNext (i * l.entrySize) = some ((i + 1) * l.entrySize) := by
  obtain hone | ⟨hword, hend⟩ := h
  · omega
  · have hlt : (i + 1) * l.entrySize < l.freeEntryPos * l.entrySize :=
      Nat.mul_lt_mul_of_pos_right hi hpos
    have hnext : i * l.entrySize + l.entrySize = (i + 1) * l.entrySize := by ring
    simp only [WbList.entryNext, WbList.entryGet, Nat.mod_eq_of_lt hword, hend.not_ge, if_false,
      hnext, hlt.not_ge]

theorem mem_walk {fuel i e : ℕ} (hi : i < l.freeEntryPos) (he : e ∈ l.walk fuel (i * l.entrySize)) :
    ∃ j < l.freeEntryPos, e = j * l.entrySize := by
  induction fuel generalizing i with
  | zero => simp [WbList.walk] at he
  | succ fuel ih =>
    rw [WbList.walk, List.mem_cons] at he
    obtain rfl | he := he
    · exact ⟨i, hi, rfl⟩
    · cases hnext : l.entryNext (i * l.entrySize) with
      | none => simp [hnext] at he
      | some next =>
        obtain ⟨rfl, hlt⟩ := entryNext_eq_some hnext
        rw [hnext] at he
        exact ih hlt he

theorem mem_walk_of_reaches (hpos : 0 < l.entrySize) (h : l.Reaches) {fuel i j : ℕ}
    (hij : i ≤ j) (hj : j < l.freeEntryPos) (hfuel : j < i + fuel) :
    j * l.entrySize ∈ l.walk fuel (i * l.entrySize) := by
  induction fuel generalizing i with
  | zero => omega
  | succ fuel ih =>
    rw [WbList.walk, List.mem_cons]
    obtain rfl | hlt := Nat.eq_or_lt_of_le hij
    · exact .inl rfl
    · right
      rw [entryNext_of_reaches hpos h (by omega)]
      exact ih hlt (by omega)

theorem mem_forEachEntry {e : ℕ} (he : e ∈ l.forEachEntry) :
    ∃ j < l.freeEntryPos, e = j * l.entrySize := by
  unfold WbList.forEachEntry WbList.entryFirst at he
  split_ifs at he with hfree
  · simp at he
  · rw [← zero_mul l.entrySize] at he
    exact mem_walk (Nat.pos_of_ne_zero hfree) he

theorem zero_mem_forEachEntry (h : 0 < l.freeEntryPos) : 0 ∈ l.forEachEntry := by
  simp [WbList.forEachEntry, WbList.entryFirst, h.ne', WbList.walk]

theorem WbList.Reaches.free_le (h : l.Reaches) (hpos : 0 < l.entrySize) :
    l.freeEntryPos ≤ l.endPos + 1 := by
  obtain hone | ⟨-, hend⟩ := h
  · omega
  · have hle := Nat.le_mul_of_pos_right l.freeEntryPos hpos
    omega

theorem mem_forEachEntry_of_reaches (hpos : 0 < l.entrySize) (h : l.Reaches) {j : ℕ}
    (hj : j < l.freeEntryPos) : j * l.entrySize ∈ l.forEachEntry := by
  have hle := h.free_le hpos
  have hfuel : j < 0 + (l.endPos + 1) := by omega
  have hmem := mem_walk_of_reaches hpos h (Nat.zero_le j) hj hfuel
  rw [zero_mul] at hmem
  simpa [WbList.forEachEntry, WbList.entryFirst, Nat.ne_of_gt (Nat.zero_lt_of_lt hj)] using hmem

end Walk

section Slots

variable {V M : Type} {kind : EntryKind V M}

/-- The slots from the first on hold the pairs, each value as `add` writes it. -/
def Slots (kind : EntryKind V M) (size : ℕ) (mem : Memory) (pairs : List (ℕ × V)) : Prop :=
  ∀ i p, pairs[i]? = some p → ofLittleEndian (mem.read (i * size) 8) = p.1 ∧
    ∃ bs, kind.add size p.2 = some bs ∧ mem.read (i * size + 8) bs.length = bs

variable {size : ℕ} {mem : Memory} {pairs : List (ℕ × V)}

theorem slot_end_le {i n : ℕ} (h : i < n) (size : ℕ) : i * size + size ≤ n * size := by
  have hmul := Nat.mul_le_mul_right size h
  rwa [Nat.succ_mul] at hmul

theorem Slots.write_of_le (hsize : kind.sizes size) (h : Slots kind size mem pairs) {a : ℕ}
    (ha : pairs.length * size ≤ a) (bs : List UInt8) : Slots kind size (mem.write a bs) pairs := by
  intro i p hp
  obtain ⟨hid, cs, hadd, hread⟩ := h i p hp
  have hfits := kind.add_fits hsize hadd
  have hend := slot_end_le (List.getElem?_eq_some_iff.1 hp).1 size
  rw [Memory.read_write_of_disjoint mem (.inl (by omega))]
  refine ⟨hid, cs, hadd, ?_⟩
  rw [Memory.read_write_of_disjoint mem (.inl (by omega)), hread]

theorem Slots.snoc (hsize : kind.sizes size) (h : Slots kind size mem pairs) {id : ℕ}
    (hid : id < 2 ^ 64) {v : V} {bs : List UInt8} (hadd : kind.add size v = some bs) :
    Slots kind size ((mem.write (pairs.length * size) (littleEndian 8 id)).write
      (pairs.length * size + 8) bs) (pairs ++ [(id, v)]) := by
  intro i p hp
  by_cases hi : i < pairs.length
  · rw [List.getElem?_append_left hi] at hp
    exact (h.write_of_le hsize le_rfl _).write_of_le hsize (Nat.le_add_right _ 8) _ i p hp
  · have hlt := (List.getElem?_eq_some_iff.1 hp).1
    rw [List.length_append, List.length_singleton] at hlt
    obtain rfl : i = pairs.length := by omega
    obtain rfl : (id, v) = p := by simpa using hp
    refine ⟨?_, bs, hadd, Memory.read_write _ _ _⟩
    rw [Memory.read_write_of_disjoint _ (.inl le_rfl)]
    have hread := Memory.read_write mem (pairs.length * size) (littleEndian 8 id)
    rw [length_littleEndian] at hread
    rw [hread, ofLittleEndian_littleEndian hid]

theorem Slots.set (hsize : kind.sizes size) (h : Slots kind size mem pairs) {i id : ℕ} {p : ℕ × V}
    (hp : pairs[i]? = some p) (hid : id < 2 ^ 64) :
    Slots kind size (mem.write (i * size) (littleEndian 8 id)) (pairs.set i (id, p.2)) := by
  intro j q hq
  have hi := (List.getElem?_eq_some_iff.1 hp).1
  by_cases hij : i = j
  · subst hij
    rw [List.getElem?_set_self hi] at hq
    obtain rfl := Option.some.inj hq
    obtain ⟨-, bs, hadd, hread⟩ := h i p hp
    refine ⟨?_, bs, hadd, ?_⟩
    · have hself := Memory.read_write mem (i * size) (littleEndian 8 id)
      rw [length_littleEndian] at hself
      rw [hself, ofLittleEndian_littleEndian hid]
    · rw [Memory.read_write_of_disjoint mem (.inr (by simp)), hread]
  · rw [List.getElem?_set_ne hij] at hq
    obtain ⟨hjd, bs, hadd, hread⟩ := h j q hq
    have hfits := kind.add_fits hsize hadd
    have hapart : i * size + 8 ≤ j * size ∨ j * size + size ≤ i * size := by
      obtain hlt | hlt := Nat.lt_or_gt_of_ne hij
      · have hend := slot_end_le hlt size
        omega
      · exact .inr (slot_end_le hlt size)
    rw [Memory.read_write_of_disjoint mem (by rw [length_littleEndian]; omega)]
    refine ⟨hjd, bs, hadd, ?_⟩
    rw [Memory.read_write_of_disjoint mem (by rw [length_littleEndian]; omega), hread]

theorem Slots.take (h : Slots kind size mem pairs) (n : ℕ) :
    Slots kind size mem (pairs.take n) := by
  intro i p hp
  have hi := (List.getElem?_eq_some_iff.1 hp).1
  rw [List.length_take] at hi
  rw [List.getElem?_take_of_lt (by omega)] at hp
  exact h i p hp

end Slots

section Move

variable {V M : Type} {kind : EntryKind V M} {pairs : List (ℕ × V)}

theorem entriesMove_eq (fuel : ℕ) (l : WbList) (entry : ℕ) :
    ∃ mem, WbList.entriesMove fuel l entry = { l with mem := mem } := by
  induction fuel generalizing l entry with
  | zero => exact ⟨l.mem, rfl⟩
  | succ fuel ih =>
    unfold WbList.entriesMove
    split
    · exact ⟨l.mem, rfl⟩
    · obtain ⟨mem, hmem⟩ := ih { l with mem := _ } _
      exact ⟨mem, hmem⟩

theorem eraseIdx_set_succ {i : ℕ} {q : ℕ × V} (hq : pairs[i + 1]? = some q) :
    (pairs.set i q).eraseIdx (i + 1) = pairs.eraseIdx i := by
  apply List.ext_getElem?
  intro j
  rw [List.getElem?_eraseIdx, List.getElem?_eraseIdx]
  obtain hlt | rfl | hgt := Nat.lt_trichotomy j i
  · rw [if_pos (by omega), if_pos hlt, List.getElem?_set_ne (by omega)]
  · have hj := (List.getElem?_eq_some_iff.1 hq).1
    rw [if_pos (by omega), if_neg (by omega), List.getElem?_set_self (by omega), hq]
  · rw [if_neg (by omega), if_neg (by omega), List.getElem?_set_ne (by omega)]

theorem idAt_lt (l : WbList) (entry : ℕ) : l.idAt entry < 2 ^ 64 := by
  have h := ofLittleEndian_lt (l.mem.read entry 8)
  rw [Memory.length_read] at h
  exact lt_of_lt_of_eq h (by norm_num)

theorem entriesMove_spec {l : WbList} {fuel i : ℕ} (hsize : kind.sizes l.entrySize)
    (hpos : 0 < l.entrySize) (hreach : l.Reaches) (hfree : l.freeEntryPos = pairs.length)
    (hi : i < pairs.length) (hfuel : pairs.length ≤ i + fuel)
    (hslots : Slots kind l.entrySize l.mem pairs)
    (hsame : ∀ j p q, i ≤ j → pairs[i]? = some p → pairs[j]? = some q → q.2 = p.2) :
    Slots kind l.entrySize (WbList.entriesMove fuel l (i * l.entrySize)).mem
      (pairs.eraseIdx i) := by
  induction fuel generalizing l i pairs with
  | zero => omega
  | succ fuel ih =>
    unfold WbList.entriesMove
    by_cases hlast : i + 1 < pairs.length
    · rw [entryNext_of_reaches hpos hreach (by omega)]
      dsimp only
      have hp : pairs[i]? = some pairs[i] := List.getElem?_eq_getElem hi
      have hq : pairs[i + 1]? = some pairs[i + 1] := List.getElem?_eq_getElem hlast
      have hval : pairs[i + 1].2 = pairs[i].2 := hsame (i + 1) _ _ (by omega) hp hq
      have hpair : (l.idAt ((i + 1) * l.entrySize), pairs[i].2) = pairs[i + 1] := by
        rw [← hval]
        exact Prod.ext (hslots _ _ hq).1 rfl
      have hset := hslots.set hsize hp (idAt_lt l ((i + 1) * l.entrySize))
      rw [hpair] at hset
      rw [← eraseIdx_set_succ hq]
      have hlen : (pairs.set i pairs[i + 1]).length = pairs.length := List.length_set
      refine ih (l := { l with mem := _ }) hsize hpos hreach ?_ ?_ ?_ hset ?_
      · rw [hlen, ← hfree]
      · rw [hlen]
        exact hlast
      · rw [hlen]
        omega
      · intro j p q hij hp' hq'
        rw [List.getElem?_set_ne (by omega)] at hp' hq'
        rw [hsame j _ q (by omega) hp hq', hsame (i + 1) _ p (by omega) hp hp']
    · have hnone : l.entryNext (i * l.entrySize) = none := by
        rw [Option.eq_none_iff_forall_ne_some]
        intro next hnext
        have hlt := (entryNext_eq_some hnext).2
        omega
      obtain rfl : i = pairs.length - 1 := by omega
      rw [hnone, List.eraseIdx_length_sub_one, List.dropLast_eq_take]
      exact hslots.take _

end Move

section Represents

variable {V M : Type} {kind : EntryKind V M} {l : WbList} {pairs : List (ℕ × V)}

structure Represents (kind : EntryKind V M) (l : WbList) (pairs : List (ℕ × V)) : Prop where
  sizes : kind.sizes l.entrySize
  size_pos : 0 < l.entrySize
  nextId_lt : l.nextId < 2 ^ 64
  free : l.freeEntryPos = pairs.length
  slots : Slots kind l.entrySize l.mem pairs
  nodup : (pairs.map Prod.fst).Nodup

namespace Represents

theorem entryAt (h : Represents kind l pairs) {i : ℕ} {p : ℕ × V} (hp : pairs[i]? = some p) :
    l.entryAt kind i = p := by
  obtain ⟨hid, bs, hadd, hread⟩ := h.slots i p hp
  exact Prod.ext hid (kind.value_of_add h.sizes hadd hread)

theorem content (h : Represents kind l pairs) : l.content kind = pairs := by
  apply List.ext_getElem
  · simp [WbList.content, h.free]
  · intro i hi hi'
    have hp : pairs[i]? = some pairs[i] := List.getElem?_eq_getElem hi'
    simpa [WbList.content] using h.entryAt hp

theorem entrySize_ge (h : Represents kind l pairs) {v : V} {bs : List UInt8}
    (hadd : kind.add l.entrySize v = some bs) : 8 ≤ l.entrySize :=
  (Nat.le_add_right 8 bs.length).trans (kind.add_fits h.sizes hadd)

theorem add (h : Represents kind l pairs) {v : V} (hok : l.AddOk kind v) :
    ∃ l' id, l.add kind v = some (l', id) ∧
      Represents kind l' (if id = 0 then pairs else pairs ++ [(id, v)]) := by
  by_cases hend : l.endPos ≤ l.freeEntryPos * l.entrySize % 2 ^ 32
  · have hget : l.entryGet l.freeEntryPos = none := if_pos hend
    refine ⟨l, 0, by simp only [WbList.add, hget], ?_⟩
    rwa [if_pos rfl]
  · obtain ⟨hword, hslot, hbytes⟩ := hok (Nat.lt_of_not_le hend)
    rw [Nat.mod_eq_of_lt hword] at hend
    rw [h.free] at hend hword hslot hbytes
    have hget : l.entryGet l.freeEntryPos = some (pairs.length * l.entrySize) := by
      rw [h.free]
      simp only [WbList.entryGet, Nat.mod_eq_of_lt hword, hend, if_false]
    have hnext : (l.nextId + 1) % 2 ^ 64 % (2 ^ 64 - 1) < 2 ^ 64 :=
      (Nat.mod_lt _ (by norm_num)).trans (by norm_num)
    simp only [WbList.add, hget, WbList.allocId, WbList.store, length_littleEndian, hslot.not_gt,
      if_false, Option.bind_some]
    cases hv : kind.add l.entrySize v with
    | none =>
      refine ⟨_, 0, rfl, ?_⟩
      exact ⟨h.sizes, h.size_pos, hnext, h.free, h.slots.write_of_le h.sizes le_rfl _, h.nodup⟩
    | some bs =>
      obtain ⟨hfits, hzero, hfresh⟩ := hbytes bs hv
      have hsnoc := h.slots.snoc h.sizes h.nextId_lt hv
      have hlast : (pairs ++ [(l.nextId, v)])[pairs.length]? = some (l.nextId, v) := by simp
      have hwide := Nat.mul_le_mul_left pairs.length (h.entrySize_ge hv)
      have hfree : (l.freeEntryPos + 1) % 2 ^ 32 = pairs.length + 1 := by
        rw [h.free, Nat.mod_eq_of_lt (by omega)]
      rw [h.content] at hfresh
      have hid := (hsnoc _ _ hlast).1
      simp only [hfits.not_gt, if_false, Option.map_some, hfree, WbList.idAt, hid]
      refine ⟨_, _, rfl, ?_⟩
      rw [if_neg hzero]
      refine ⟨h.sizes, h.size_pos, hnext, by simp, hsnoc, ?_⟩
      rw [List.map_append, List.map_singleton, List.nodup_append_comm]
      exact List.nodup_cons.2 ⟨hfresh, h.nodup⟩

theorem filter_ne_of_notMem {id : ℕ} (hid : id ∉ pairs.map Prod.fst) :
    pairs.filter (fun p => p.1 ≠ id) = pairs := by
  rw [List.filter_eq_self]
  intro p hp
  rw [decide_eq_true_iff]
  rintro rfl
  exact hid (List.mem_map_of_mem hp)

theorem filter_ne_of_nodup {i : ℕ} {p : ℕ × V} (hnodup : (pairs.map Prod.fst).Nodup)
    (hp : pairs[i]? = some p) : pairs.filter (fun q => q.1 ≠ p.1) = pairs.eraseIdx i := by
  induction pairs generalizing i with
  | nil => simp at hp
  | cons q pairs ih =>
    rw [List.map_cons, List.nodup_cons] at hnodup
    cases i with
    | zero =>
      obtain rfl : q = p := by simpa using hp
      rw [List.filter_cons_of_neg (by simp), List.eraseIdx_cons_zero,
        filter_ne_of_notMem hnodup.1]
    | succ i =>
      rw [List.getElem?_cons_succ] at hp
      have hne : q.1 ≠ p.1 := by
        intro heq
        exact hnodup.1 (heq ▸ List.mem_map_of_mem (List.mem_of_getElem? hp))
      rw [List.filter_cons_of_pos (by simpa using hne), List.eraseIdx_cons_succ, ih hnodup.2 hp]

theorem findEntry_eq_some (h : Represents kind l pairs) {id entry : ℕ}
    (hfind : l.findEntry id = some entry) :
    ∃ i p, pairs[i]? = some p ∧ entry = i * l.entrySize ∧ p.1 = id := by
  obtain ⟨i, hi, rfl⟩ := mem_forEachEntry (List.mem_of_find?_eq_some hfind)
  rw [h.free] at hi
  have hp : pairs[i]? = some pairs[i] := List.getElem?_eq_getElem hi
  have hid : l.idAt (i * l.entrySize) = id := by simpa using List.find?_some hfind
  exact ⟨i, _, hp, rfl, (h.slots i _ hp).1.symm.trans hid⟩

theorem del (h : Represents kind l pairs) {id : ℕ} (hok : l.DelOk kind id) :
    Represents kind (l.del id) (pairs.filter fun p => p.1 ≠ id) := by
  unfold WbList.del
  split_ifs with hempty
  · have hnil : pairs = [] := by
      rw [← List.length_eq_zero_iff, ← h.free]
      simpa [WbList.empty] using hempty
    subst hnil
    exact h
  · cases hfind : l.findEntry id with
    | none =>
      have hid : id ∉ pairs.map Prod.fst := by
        rw [← h.content]
        obtain hid | ⟨hreach, -⟩ := hok
        · exact hid
        · intro hid
          rw [h.content] at hid
          obtain ⟨p, hp, rfl⟩ := List.mem_map.1 hid
          obtain ⟨i, hi, rfl⟩ := List.getElem_of_mem hp
          have hmem := mem_forEachEntry_of_reaches h.size_pos hreach (h.free ▸ hi)
          apply List.find?_eq_none.1 hfind _ hmem
          rw [beq_iff_eq]
          exact (h.slots i _ (List.getElem?_eq_getElem hi)).1
      rwa [filter_ne_of_notMem hid]
    | some entry =>
      obtain ⟨i, p, hp, rfl, rfl⟩ := h.findEntry_eq_some hfind
      have hmem : p.1 ∈ (l.content kind).map Prod.fst := by
        rw [h.content]
        exact List.mem_map_of_mem (List.mem_of_getElem? hp)
      obtain ⟨hreach, hsame⟩ := hok.resolve_left (not_not_intro hmem)
      have hi := (List.getElem?_eq_some_iff.1 hp).1
      have hfuel : pairs.length ≤ i + (l.endPos + 1) := by
        have hle := hreach.free_le h.size_pos
        rw [h.free] at hle
        omega
      have hvalues : ∀ j q r, i ≤ j → pairs[i]? = some q → pairs[j]? = some r → r.2 = q.2 := by
        intro j q r hij hq hr
        have hj := (List.getElem?_eq_some_iff.1 hr).1
        obtain rfl := Option.some.inj (hp.symm.trans hq)
        have heq := hsame j (h.free ▸ hj) i hij (congrArg Prod.fst (h.entryAt hp))
        rwa [h.entryAt hp, h.entryAt hr] at heq
      have hslots := entriesMove_spec h.sizes h.size_pos hreach h.free hi hfuel h.slots hvalues
      obtain ⟨mem, hmove⟩ := entriesMove_eq (l.endPos + 1) l (i * l.entrySize)
      dsimp only
      rw [hmove] at hslots ⊢
      rw [filter_ne_of_nodup h.nodup hp]
      refine ⟨h.sizes, h.size_pos, h.nextId_lt, ?_, hslots, ?_⟩
      · rw [List.length_eraseIdx_of_lt hi, ← h.free]
      · exact h.nodup.sublist ((List.eraseIdx_sublist pairs i).map Prod.fst)

theorem isMatch_entry (h : Represents kind l pairs) {i : ℕ} {p : ℕ × V} (hp : pairs[i]? = some p)
    (m : M) : kind.isMatch l.mem (i * l.entrySize + 8) m = kind.holds p.2 m := by
  obtain ⟨-, bs, hadd, hread⟩ := h.slots i p hp
  exact kind.isMatch_of_add m hadd hread

theorem isMatch (h : Represents kind l pairs) (hon : l.isOn ≠ 0) {m : M}
    (hok : l.MatchOk kind m) :
    l.isMatch kind m = true ↔ ∃ p ∈ pairs, kind.holds p.2 m = true := by
  have hany : l.isMatch kind m =
      l.forEachEntry.any fun entry => kind.isMatch l.mem (entry + 8) m := by
    by_cases hfree : l.freeEntryPos = 0
    · simp [WbList.isMatch, WbList.empty, hfree, WbList.forEachEntry, WbList.entryFirst]
    · simp [WbList.isMatch, WbList.empty, hfree, hon]
  rw [hany, List.any_eq_true]
  constructor
  · rintro ⟨entry, hentry, hmatch⟩
    obtain ⟨i, hi, rfl⟩ := mem_forEachEntry hentry
    rw [h.free] at hi
    have hp : pairs[i]? = some pairs[i] := List.getElem?_eq_getElem hi
    exact ⟨pairs[i], List.getElem_mem hi, (h.isMatch_entry hp m).symm.trans hmatch⟩
  · rintro ⟨p, hp, hmatch⟩
    obtain ⟨i, hi, rfl⟩ := List.getElem_of_mem hp
    obtain hreach | hfirst := hok
    · refine ⟨_, mem_forEachEntry_of_reaches h.size_pos hreach (h.free ▸ hi), ?_⟩
      rw [h.isMatch_entry (List.getElem?_eq_getElem hi), hmatch]
    · have hzero : 0 < pairs.length := Nat.zero_lt_of_lt hi
      have hp₀ : pairs[0]? = some pairs[0] := List.getElem?_eq_getElem hzero
      rw [h.content, h.entryAt hp₀] at hfirst
      refine ⟨0, zero_mem_forEachEntry (h.free ▸ hzero), ?_⟩
      have hentry := h.isMatch_entry hp₀ m
      rw [zero_mul] at hentry
      rw [hentry, hfirst ⟨_, hp, hmatch⟩]

end Represents

theorem represents_init {pgSize msize : ℕ} {entrySize : UInt32}
    (hsize : kind.sizes entrySize.toNat) (h : WbList.init pgSize msize entrySize = some l) :
    Represents kind l [] := by
  unfold WbList.init at h
  dsimp only at h
  split_ifs at h with hargs
  obtain rfl := Option.some.inj h
  have hne : entrySize.toNat ≠ 0 := by
    intro hzero
    exact hargs (.inr (.inr (UInt32.toNat.inj hzero)))
  exact ⟨hsize, Nat.pos_of_ne_zero hne, by norm_num, rfl, by simp [Slots], by simp⟩

theorem represents_step (h : Represents kind l pairs) {op : Op V} (hok : OpOk kind (some l) op) :
    ∃ l', step kind (some l) op = some l' ∧
      Represents kind l' (liveStep kind pairs (some l, op)) := by
  cases op with
  | add v =>
    obtain ⟨l', id, hadd, hrep⟩ := h.add hok
    refine ⟨l', by simp [step, hadd], ?_⟩
    simpa only [liveStep, hadd] using hrep
  | del id => exact ⟨_, rfl, h.del hok⟩
  | isOnSet v => exact ⟨_, rfl, h.sizes, h.size_pos, h.nextId_lt, h.free, h.slots, h.nodup⟩

end Represents

theorem list_holds_live {V M : Type} (kind : EntryKind V M) (pgSize msize : ℕ)
    (entrySize : UInt32) (hsize : kind.sizes entrySize.toNat) (l₀ : WbList)
    (hinit : WbList.init pgSize msize entrySize = some l₀)
    (history : List (Option WbList × Op V)) (s : Option WbList)
    (hrun : Run (fun s op s' => s' = step kind s op) (some l₀) history s)
    (hok : StepsOk (fun _ => OpOk kind) history) :
    ∃ l, s = some l ∧ l.content kind = live kind history ∧
      ((l.content kind).map Prod.fst).Nodup ∧
      ∀ m, l.isOn ≠ 0 → l.MatchOk kind m →
        (l.isMatch kind m = true ↔ ∃ p ∈ live kind history, kind.holds p.2 m = true) := by
  have hrep : ∃ l, s = some l ∧ Represents kind l (live kind history) := by
    refine @Run.invariant _ _ _ _ _
      (fun history s => ∃ l, s = some l ∧ Represents kind l (live kind history)) ?_ ?_ _ _ hrun hok
    · exact ⟨l₀, rfl, represents_init hsize hinit⟩
    · rintro history _ op _ ⟨l, rfl, hrep⟩ hop rfl
      rw [live, List.foldl_append]
      exact represents_step hrep hop
  obtain ⟨l, rfl, hrep⟩ := hrep
  refine ⟨l, rfl, hrep.content, ?_, ?_⟩
  · rw [hrep.content]
    exact hrep.nodup
  · intro m hon hmatch
    exact hrep.isMatch hon hmatch

def ipValueA : IpValue := ⟨0, 10, 20, 80, 80⟩

def ipValueB : IpValue := ⟨0, 30, 40, 443, 443⟩

theorem list_holds_live_ip :
    let ops : List (Op IpValue) := [.add ipValueA, .add ipValueB, .del 12346, .isOnSet 1]
    ∃ l, ops.foldl (step ipKind) (listIpInit 4096 4096) = some l ∧
      l.content ipKind = [(12345, ipValueA)] ∧
      l.isMatch ipKind ⟨15, 80⟩ = true := by
  intro ops
  have hinit : listIpInit 4096 4096 = some ⟨0, 0, 24, 12345, 4072, fun _ => 0⟩ := rfl
  have hlive : live ipKind (Lib.trace (step ipKind) (listIpInit 4096 4096) ops) =
      [(12345, ipValueA)] := by decide +kernel
  have hok : ∀ v ∈ Lib.trace (step ipKind) (listIpInit 4096 4096) ops, OpOk ipKind v.1 v.2 := by
    decide +kernel
  have hend : ∀ l ∈ ops.foldl (step ipKind) (listIpInit 4096 4096),
      l.isOn ≠ 0 ∧ l.MatchOk ipKind ⟨15, 80⟩ := by decide +kernel
  have hrun := Run.trace (step ipKind) (listIpInit 4096 4096) ops
  rw [hinit] at hrun hlive hok hend ⊢
  obtain ⟨l, hl, hcontent, -, hmatch⟩ :=
    list_holds_live ipKind 4096 4096 24 rfl _ hinit _ _ hrun (StepsOk.of_forall hok)
  rw [hlive] at hcontent hmatch
  obtain ⟨hon, hreach⟩ := hend l hl
  refine ⟨l, hl, hcontent, (hmatch _ hon hreach).2 ?_⟩
  exact ⟨_, List.mem_singleton_self _, by decide +kernel⟩

/-- Taking out the first of two entries leaves its value under the id of the second, and
a walk over a full list does not come to the second of two entries. -/
theorem del_moves_ids_only :
    (let ops : List (Op IpValue) := [.add ipValueA, .add ipValueB, .del 12345]
     (ops.foldl (step ipKind) (listIpInit 4096 4096)).map (fun l => l.content ipKind) =
        some [(12346, ipValueA)] ∧
      live ipKind (Lib.trace (step ipKind) (listIpInit 4096 4096) ops) = [(12346, ipValueB)]) ∧
    (let a : CString := some ⟨[97], by decide⟩
     let b : CString := some ⟨[98], by decide⟩
     let ops : List (Op CString) := [.add a, .add b, .isOnSet 1]
     (ops.foldl (step strKind) (listStrInit 4096 4096 2027)).map (fun l => l.isMatch strKind b) =
        some false ∧
      live strKind (Lib.trace (step strKind) (listStrInit 4096 4096 2027) ops) =
        [(12345, a), (12346, b)]) := by
  refine ⟨⟨?_, ?_⟩, ⟨?_, ?_⟩⟩ <;> decide +kernel

end CloudHands.Wb
