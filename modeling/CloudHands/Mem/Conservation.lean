import CloudHands.Mem.ObjectPool

/-!
# No object of a pool is lost or handed out twice

The items of a pool are those of its free list and those of the objects in use. Getting and
putting move an item from the one to the other; a new slab adds items that do not overlap. The
limit is looked at only before a slab is made, which adds any number of objects, and a slab can be
too small for one object.
-/

namespace CloudHands.Mem

open Lib
open CloudHands.Word (add sub)

variable {omp : ObjectPool} {u : PoolUse}

def PoolUse.items (u : PoolUse) : List ℕ := u.pool.freeList ++ u.objects.map (· - objectItemHeader)

/-- What the loop of `_new_memory` adds. -/
structure Added (omp omp' : ObjectPool) (lo hi : ℕ) (items : List ℕ) : Prop where
  freeList : omp'.freeList = omp.freeList ++ items
  nFrees : omp'.nFrees = (omp.nFrees + items.length) % 2 ^ 64
  nObjects : omp'.nObjects = (omp.nObjects + items.length) % 2 ^ 64
  apart : (items.map (⟨·, omp.itemBytes⟩)).Pairwise Extent.Apart
  within : ∀ i ∈ items, Extent.Within ⟨i, omp.itemBytes⟩ lo hi
  count : items.length * objectItemHeader ≤ hi - lo
  rest : omp' = { omp with
    freeList := omp'.freeList, nFrees := omp'.nFrees, nObjects := omp'.nObjects }

theorem addItems_added (omp : ObjectPool) (stop left pos : ℕ) (hfrees : omp.nFrees < 2 ^ 64)
    (hobjects : omp.nObjects < 2 ^ 64) :
    ∃ items, Added omp (addItems stop left pos omp) pos stop items := by
  induction left generalizing pos omp with
  | zero =>
    exact ⟨[], (List.append_nil _).symm, (Nat.mod_eq_of_lt hfrees).symm,
      (Nat.mod_eq_of_lt hobjects).symm, List.Pairwise.nil, List.forall_mem_nil _, by simp, rfl⟩
  | succ left ih =>
    rw [addItems]
    split
    · rename_i hroom
      obtain ⟨items, hadded⟩ := ih (addItem omp pos) (pos + omp.itemBytes)
        (Nat.mod_lt _ (by positivity)) (Nat.mod_lt _ (by positivity))
      have hitem : objectItemHeader ≤ omp.itemBytes := Nat.le_add_left _ _
      have hwithin := hadded.within
      refine ⟨pos :: items, ?_, ?_, ?_, ?_, ?_, ?_, ?_⟩
      · rw [hadded.freeList]
        simp [addItem]
      · rw [hadded.nFrees, List.length_cons]
        simp only [addItem, add, Nat.mod_add_mod]
        congr 1
        omega
      · rw [hadded.nObjects, List.length_cons]
        simp only [addItem, add, Nat.mod_add_mod]
        congr 1
        omega
      · rw [List.map_cons, List.pairwise_cons]
        refine ⟨fun x hx => ?_, hadded.apart⟩
        obtain ⟨i, hi, rfl⟩ := List.mem_map.1 hx
        exact .inl (hwithin i hi).1
      · refine List.forall_mem_cons.2 ⟨⟨le_rfl, hroom.le⟩, fun i hi => ?_⟩
        exact ⟨(Nat.le_add_right _ _).trans (hwithin i hi).1, (hwithin i hi).2⟩
      · have hcount := hadded.count
        rw [List.length_cons, Nat.succ_mul]
        omega
      · rw [hadded.rest]
        rfl
    · exact ⟨[], (List.append_nil _).symm, (Nat.mod_eq_of_lt hfrees).symm,
        (Nat.mod_eq_of_lt hobjects).symm, List.Pairwise.nil, List.forall_mem_nil _, by simp, rfl⟩

def Extents (size : ℕ) (starts : List ℕ) : List Extent := starts.map (⟨·, size⟩)

theorem pairwise_extents_perm {size : ℕ} {xs ys : List ℕ} (h : xs.Perm ys)
    (hxs : (Extents size xs).Pairwise Extent.Apart) : (Extents size ys).Pairwise Extent.Apart :=
  (h.map _).pairwise hxs fun hapart => hapart.symm

structure PoolInv (u : PoolUse) : Prop where
  apart : (Extents u.pool.itemBytes u.items).Pairwise Extent.Apart
  inSlab : ∀ i ∈ u.items, ∃ slab ∈ u.pool.mmList,
    Extent.Within ⟨i, u.pool.itemBytes⟩ (slab + objectMemHeader) (slab + objectMemSize)
  slabs : (Extents objectMemSize u.pool.mmList).Pairwise Extent.Apart
  within : ∀ slab ∈ u.pool.mmList, Extent.Within ⟨slab, objectMemSize⟩ 1 (2 ^ 64)
  nFrees : u.pool.nFrees = u.pool.freeList.length
  nUsing : u.pool.nUsing = u.objects.length
  nObjects : u.pool.nObjects = u.items.length
  count : u.items.length * objectItemHeader ≤ u.pool.mmList.length * objectMemSize

theorem slabs_le {slabs : List ℕ} (hapart : (Extents objectMemSize slabs).Pairwise Extent.Apart)
    (hwithin : ∀ slab ∈ slabs, Extent.Within ⟨slab, objectMemSize⟩ 1 (2 ^ 64)) :
    slabs.length * objectMemSize < 2 ^ 64 := by
  have hall : ∀ x ∈ Extents objectMemSize slabs, x.Within 1 (2 ^ 64) := by
    intro x hx
    obtain ⟨slab, hslab, rfl⟩ := List.mem_map.1 hx
    exact hwithin slab hslab
  have hle := Extent.sum_size_le hapart hall
  have hconst : (Extents objectMemSize slabs).map Extent.size =
      slabs.map fun _ => objectMemSize := by
    rw [Extents, List.map_map]
    rfl
  rw [hconst, List.map_const', List.sum_replicate, smul_eq_mul] at hle
  omega

theorem PoolInv.length_lt (h : PoolInv u) : u.items.length < 2 ^ 60 := by
  have hslabs := slabs_le h.slabs h.within
  have hcount := h.count
  have hheader : objectItemHeader = 16 := rfl
  rw [hheader] at hcount
  omega

theorem length_items (u : PoolUse) :
    u.items.length = u.pool.freeList.length + u.objects.length := by
  rw [PoolUse.items, List.length_append, List.length_map]

theorem apart_of_slabs {a slab size : ℕ} {x y : Extent}
    (hx : x.Within (a + objectMemHeader) (a + size))
    (hy : y.Within (slab + objectMemHeader) (slab + size))
    (hapart : Extent.Apart ⟨a, size⟩ ⟨slab, size⟩) : x.Apart y := by
  obtain ⟨hx₁, hx₂⟩ := hx
  obtain ⟨hy₁, hy₂⟩ := hy
  rcases hapart with h | h
  · exact .inl (by dsimp only at h; omega)
  · exact .inr (by dsimp only at h; omega)

theorem PoolInv.of_perm (h : PoolInv u) {u' : PoolUse} (hperm : u'.items.Perm u.items)
    (hsize : u'.pool.objectSize = u.pool.objectSize) (hslabs : u'.pool.mmList = u.pool.mmList)
    (hfrees : u'.pool.nFrees = u'.pool.freeList.length)
    (husing : u'.pool.nUsing = u'.objects.length)
    (hobjects : u'.pool.nObjects = u.pool.nObjects) : PoolInv u' := by
  have hbytes : u'.pool.itemBytes = u.pool.itemBytes := congrArg (· + objectItemHeader) hsize
  constructor
  · rw [hbytes]
    exact pairwise_extents_perm hperm.symm h.apart
  · intro i hi
    rw [hbytes, hslabs]
    exact h.inSlab i (hperm.subset hi)
  · rw [hslabs]
    exact h.slabs
  · rw [hslabs]
    exact h.within
  · exact hfrees
  · exact husing
  · rw [hobjects, hperm.length_eq]
    exact h.nObjects
  · rw [hperm.length_eq, hslabs]
    exact h.count

theorem PoolInv.newMemory (h : PoolInv u) {a : ℕ} (hallows : u.Allows (.get (some a))) :
    ∃ omp, newMemory u.pool (some a) = some omp ∧ PoolInv ⟨omp, u.objects⟩ ∧
      omp.objectLimits = u.pool.objectLimits ∧ omp.objectSize = u.pool.objectSize ∧
      omp.nUsing = u.pool.nUsing := by
  obtain ⟨hwithin, hslabs⟩ := hallows a rfl
  have hlength := h.length_lt
  rw [length_items] at hlength
  obtain ⟨items, hadded⟩ := addItems_added u.pool (a + objectMemSize) objectMemSize
    (a + objectMemHeader) (by rw [h.nFrees]; omega)
    (by rw [h.nObjects, length_items]; omega)
  set omp := addItems (a + objectMemSize) objectMemSize (a + objectMemHeader) u.pool
  have hmm : omp.mmList = u.pool.mmList := by rw [hadded.rest]
  have husing : omp.nUsing = u.pool.nUsing := by rw [hadded.rest]
  have hlimits : omp.objectLimits = u.pool.objectLimits := by rw [hadded.rest]
  have hsize : omp.objectSize = u.pool.objectSize := by rw [hadded.rest]
  have hbytes : omp.itemBytes = u.pool.itemBytes := congrArg (· + objectItemHeader) hsize
  have hcount := hadded.count
  have hheader : objectItemHeader = 16 := rfl
  have hmem : objectMemSize = 65536 := rfl
  rw [hheader] at hcount
  let u' : PoolUse := ⟨{ omp with mmList := a :: omp.mmList, nMms := add 64 omp.nMms 1 }, u.objects⟩
  have hperm : (items ++ u.items).Perm u'.items := by
    have heq : u'.items = u.pool.freeList ++ (items ++ u.objects.map (· - objectItemHeader)) := by
      rw [← List.append_assoc, ← hadded.freeList]
      rfl
    rw [heq, PoolUse.items, ← List.append_assoc, ← List.append_assoc]
    exact List.perm_append_comm.append_right _
  refine ⟨u'.pool, rfl, ⟨?_, ?_, ?_, ?_, ?_, ?_, ?_, ?_⟩, hlimits, hsize, husing⟩
  · refine pairwise_extents_perm hperm ?_
    rw [show u'.pool.itemBytes = u.pool.itemBytes from hbytes, Extents, List.map_append,
      List.pairwise_append]
    refine ⟨hadded.apart, h.apart, fun x hx y hy => ?_⟩
    obtain ⟨i, hi, rfl⟩ := List.mem_map.1 hx
    obtain ⟨j, hj, rfl⟩ := List.mem_map.1 hy
    obtain ⟨slab, hslab, hin⟩ := h.inSlab j hj
    exact apart_of_slabs (hadded.within i hi) hin (hslabs slab hslab)
  · intro i hi
    rw [show u'.pool.itemBytes = u.pool.itemBytes from hbytes]
    rcases List.mem_append.1 (hperm.symm.subset hi) with hi | hi
    · exact ⟨a, List.mem_cons_self, hadded.within i hi⟩
    · obtain ⟨slab, hslab, hin⟩ := h.inSlab i hi
      exact ⟨slab, List.mem_cons_of_mem _ (hmm ▸ hslab), hin⟩
  · change (Extents objectMemSize (a :: omp.mmList)).Pairwise Extent.Apart
    rw [hmm, Extents, List.map_cons, List.pairwise_cons]
    refine ⟨fun x hx => ?_, h.slabs⟩
    obtain ⟨slab, hslab, rfl⟩ := List.mem_map.1 hx
    exact hslabs slab hslab
  · change ∀ slab ∈ a :: omp.mmList, _
    rw [hmm]
    exact List.forall_mem_cons.2 ⟨hwithin, h.within⟩
  · change omp.nFrees = omp.freeList.length
    rw [hadded.nFrees, hadded.freeList, List.length_append, h.nFrees, Nat.mod_eq_of_lt (by omega)]
  · exact husing.trans h.nUsing
  · change omp.nObjects = u'.items.length
    rw [hadded.nObjects, ← hperm.length_eq, List.length_append, h.nObjects, length_items,
      Nat.mod_eq_of_lt (by omega), Nat.add_comm]
  · change u'.items.length * objectItemHeader ≤ (a :: omp.mmList).length * objectMemSize
    have hold := h.count
    rw [hheader] at hold ⊢
    rw [← hperm.length_eq, List.length_append, List.length_cons, hmm, Nat.succ_mul]
    omega

theorem PoolInv.takeItem (h : PoolInv u) (hfree : u.pool.freeList ≠ []) :
    ∃ obj omp, takeItem u.pool = some (some obj, omp) ∧ PoolInv ⟨omp, obj :: u.objects⟩ ∧
      omp.objectLimits = u.pool.objectLimits ∧ omp.objectSize = u.pool.objectSize ∧
      omp.nUsing = u.pool.nUsing + 1 := by
  obtain ⟨item, items, hitems⟩ := List.exists_cons_of_ne_nil hfree
  have hlength := h.length_lt
  rw [length_items, hitems, List.length_cons] at hlength
  have husing : add 64 u.pool.nUsing 1 = u.pool.nUsing + 1 :=
    Word.add_of_lt (by rw [h.nUsing]; omega)
  have hfrees : sub 64 u.pool.nFrees 1 = items.length := by
    rw [h.nFrees, hitems, List.length_cons]
    exact Word.sub_of_le (by omega) (Nat.le_add_left 1 _)
  let omp : ObjectPool :=
    { u.pool with
      freeList := items, nFrees := sub 64 u.pool.nFrees 1, nUsing := add 64 u.pool.nUsing 1 }
  refine ⟨item + objectItemHeader, omp, by rw [Mem.takeItem, hitems],
    h.of_perm ?_ rfl rfl hfrees ?_ rfl, rfl, rfl, husing⟩
  · simp only [PoolUse.items, hitems, List.map_cons, Nat.add_sub_cancel, List.cons_append]
    exact List.perm_middle
  · exact husing.trans (congrArg (· + 1) h.nUsing)

theorem PoolInv.obj_pos (h : PoolInv u) {obj : ℕ} (hobj : obj ∈ u.objects) : obj ≠ 0 := by
  have hmem : obj - objectItemHeader ∈ u.items :=
    List.mem_append_right _ (List.mem_map_of_mem hobj)
  obtain ⟨slab, -, hin, -⟩ := h.inSlab _ hmem
  have hheader : objectMemHeader = 8 := rfl
  rintro rfl
  dsimp only at hin
  omega

theorem PoolInv.put (h : PoolInv u) {obj : ℕ} (hobj : obj ∈ u.objects) :
    PoolInv ⟨objectPoolPut u.pool obj, u.objects.erase obj⟩ := by
  have hperm := List.perm_cons_erase hobj
  have hlength := h.length_lt
  rw [length_items, hperm.length_eq, List.length_cons] at hlength
  have hfrees : add 64 u.pool.nFrees 1 = (u.pool.freeList ++ [obj - objectItemHeader]).length := by
    rw [h.nFrees, Word.add_of_lt (by omega), List.length_append, List.length_singleton]
  have husing : sub 64 u.pool.nUsing 1 = (u.objects.erase obj).length := by
    rw [h.nUsing, hperm.length_eq, List.length_cons]
    exact Word.sub_of_le (by omega) (Nat.le_add_left 1 _)
  rw [objectPoolPut, if_neg (h.obj_pos hobj)]
  refine h.of_perm ?_ rfl rfl hfrees husing rfl
  simp only [PoolUse.items]
  refine List.Perm.trans ?_ ((hperm.map (· - objectItemHeader)).symm.append_left _)
  rw [List.append_assoc, List.map_cons, List.singleton_append]

/-- There is room below the limit, and an item is there or fits into a new slab; otherwise
`malloc` fails. -/
def PoolUse.Sound (u : PoolUse) : PoolOp → Prop
  | .get addr =>
    (u.pool.objectLimits = 0 ∨ u.pool.nUsing < u.pool.objectLimits ∨
        (u.pool.freeList = [] ∧ addr = none)) ∧
      (u.pool.freeList ≠ [] ∨ addr = none ∨
        objectMemHeader + u.pool.itemBytes < objectMemSize)
  | .put _ => True

instance (u : PoolUse) : (op : PoolOp) → Decidable (u.Sound op)
  | .get addr =>
    inferInstanceAs (Decidable ((u.pool.objectLimits = 0 ∨ u.pool.nUsing < u.pool.objectLimits ∨
        (u.pool.freeList = [] ∧ addr = none)) ∧
      (u.pool.freeList ≠ [] ∨ addr = none ∨
        objectMemHeader + u.pool.itemBytes < objectMemSize)))
  | .put _ => inferInstanceAs (Decidable True)

def WithinLimit (omp : ObjectPool) : Prop := omp.objectLimits ≠ 0 → omp.nUsing ≤ omp.objectLimits

theorem addItems_ne_nil {stop left pos : ℕ} (hroom : pos + omp.itemBytes < stop) :
    (addItems stop (left + 1) pos omp).freeList ≠ [] := by
  obtain ⟨items, hadded⟩ := addItems_added (addItem omp pos) stop left (pos + omp.itemBytes)
    (Nat.mod_lt _ (by positivity)) (Nat.mod_lt _ (by positivity))
  rw [addItems, if_pos hroom, hadded.freeList]
  simp [addItem]

def Got (objects : List ℕ) (r : Option ℕ) (omp : ObjectPool) : Prop :=
  PoolInv ⟨omp, r.toList ++ objects⟩ ∧ WithinLimit omp

theorem PoolInv.take (h : PoolInv u) (hfree : u.pool.freeList ≠ [])
    (hlimit : u.pool.objectLimits = 0 ∨ u.pool.nUsing < u.pool.objectLimits) :
    ∃ r omp, Mem.takeItem u.pool = some (r, omp) ∧ Got u.objects r omp := by
  obtain ⟨obj, omp, htake, hinv, hlimits, -, husing⟩ := h.takeItem hfree
  refine ⟨some obj, omp, htake, hinv, fun hne => ?_⟩
  rw [husing, hlimits]
  rw [hlimits] at hne
  exact hlimit.resolve_left hne

theorem PoolInv.get (h : PoolInv u) (hwithin : WithinLimit u.pool) {addr : Option ℕ}
    (hallows : u.Allows (.get addr)) (hsound : u.Sound (.get addr)) :
    ∃ r omp, objectPoolGet u.pool addr = some (r, omp) ∧ Got u.objects r omp := by
  obtain ⟨hlimit, hroom⟩ := hsound
  unfold objectPoolGet
  split
  · rename_i hempty
    split
    · exact ⟨none, u.pool, rfl, h, hwithin⟩
    cases addr with
    | none => exact ⟨none, u.pool, rfl, h, hwithin⟩
    | some a =>
      have hbelow : u.pool.objectLimits = 0 ∨ u.pool.nUsing < u.pool.objectLimits := by
        rcases hlimit with hlimit | hlimit | ⟨-, hnone⟩
        · exact .inl hlimit
        · exact .inr hlimit
        · cases hnone
      have hfits : objectMemHeader + u.pool.itemBytes < objectMemSize := by
        rcases hroom with hne | hnone | hfits
        · exact absurd hempty hne
        · cases hnone
        · exact hfits
      obtain ⟨omp, hnew, hinv, hlimits, -, husing⟩ := h.newMemory hallows
      have hfree : omp.freeList ≠ [] := by
        cases hnew
        exact addItems_ne_nil (by omega)
      rw [hnew]
      exact hinv.take hfree (by rwa [hlimits, husing])
  · rename_i hfree
    refine h.take hfree ?_
    rcases hlimit with hlimit | hlimit | ⟨hempty, -⟩
    · exact .inl hlimit
    · exact .inr hlimit
    · exact absurd hempty hfree

theorem PoolInv.step (h : PoolInv u) (hwithin : WithinLimit u.pool) {op : PoolOp}
    (hallows : u.Allows op) (hsound : u.Sound op) :
    ∃ u', u.step op = some u' ∧ PoolInv u' ∧ WithinLimit u'.pool := by
  cases op with
  | get addr =>
    obtain ⟨r, omp, hget, hinv, hlimit⟩ := h.get hwithin hallows hsound
    refine ⟨⟨omp, r.toList ++ u.objects⟩, ?_, hinv, hlimit⟩
    rw [PoolUse.step, hget]
    cases r <;> rfl
  | put obj =>
    have hput := h.put hallows
    refine ⟨_, rfl, hput, fun hne => ?_⟩
    have husing := hput.nUsing
    have hlimits : (objectPoolPut u.pool obj).objectLimits = u.pool.objectLimits := by
      unfold objectPoolPut
      split <;> rfl
    dsimp only at husing hne ⊢
    rw [husing, hlimits]
    rw [hlimits] at hne
    calc (u.objects.erase obj).length ≤ u.objects.length := List.length_erase_le
      _ = u.pool.nUsing := h.nUsing.symm
      _ ≤ u.pool.objectLimits := hwithin hne

theorem poolInv_create {objectLimits objectSize : ℕ}
    (hcreate : objectPoolCreate objectLimits objectSize = some omp) :
    PoolInv ⟨omp, []⟩ ∧ WithinLimit omp := by
  unfold objectPoolCreate at hcreate
  split at hcreate
  · cases hcreate
  · cases hcreate
    refine ⟨?_, fun _ => Nat.zero_le _⟩
    constructor <;> simp [PoolUse.items, Extents]

/-- Every object is free or in use, none of them twice and none over another one, the limit is
kept, and getting nothing means that the limit is reached or that `malloc` fails. -/
structure Conserved (u : PoolUse) : Prop where
  count : u.pool.nFrees + u.pool.nUsing = u.pool.nObjects
  nFrees : u.pool.freeList.length = u.pool.nFrees
  nUsing : u.objects.length = u.pool.nUsing
  distinct : u.items.Nodup
  apart : (Extents u.pool.itemBytes u.items).Pairwise Extent.Apart
  limit : WithinLimit u.pool
  null : ∀ addr omp, objectPoolGet u.pool addr = some (none, omp) →
    addr = none ∨ (u.pool.objectLimits ≠ 0 ∧ u.pool.objectLimits ≤ u.pool.nUsing)

theorem PoolInv.null (h : PoolInv u) {addr : Option ℕ}
    (hget : objectPoolGet u.pool addr = some (none, omp)) :
    addr = none ∨ (u.pool.objectLimits ≠ 0 ∧ u.pool.objectLimits ≤ u.pool.nUsing) := by
  have htake : ∀ omp', Mem.takeItem omp' ≠ some (none, omp) := by
    intro omp'
    unfold Mem.takeItem
    split <;> simp
  unfold objectPoolGet at hget
  split at hget
  · rename_i hempty
    split at hget
    · rename_i hlimit
      have hobjects := h.nObjects
      rw [length_items, hempty, List.length_nil, Nat.zero_add, ← h.nUsing] at hobjects
      exact .inr ⟨hlimit.1, hobjects ▸ hlimit.2.le⟩
    · cases addr with
      | none => exact .inl rfl
      | some a => exact absurd hget (htake _)
  · exact absurd hget (htake _)

theorem PoolInv.nodup (h : PoolInv u) : u.items.Nodup := by
  have hitem : 0 < u.pool.itemBytes := Nat.add_pos_right _ (by decide)
  exact (List.pairwise_map.1 h.apart).imp fun hapart => hapart.start_ne hitem hitem

theorem PoolInv.conserved (h : PoolInv u) (hwithin : WithinLimit u.pool) : Conserved u where
  count := by rw [h.nFrees, h.nUsing, h.nObjects, length_items]
  nFrees := h.nFrees.symm
  nUsing := h.nUsing.symm
  distinct := h.nodup
  apart := h.apart
  limit := hwithin
  null _ _ hget := h.null hget

/-- The objects are conserved in every run that gets one only below the limit, and of a size that
fits into a slab. -/
theorem objects_conserved (objectLimits objectSize : ℕ)
    (hcreate : objectPoolCreate objectLimits objectSize = some omp) (ops : List PoolOp)
    (h : Follows PoolUse.step (fun u op => u.Allows op ∧ u.Sound op) ⟨omp, []⟩ ops) :
    ∃ u, runFrom PoolUse.step ⟨omp, []⟩ ops = some u ∧ Conserved u := by
  obtain ⟨u, hrun, hinv, hwithin⟩ := h.run (fun u => PoolInv u ∧ WithinLimit u.pool)
    (fun {u op} hu hop => hu.1.step hu.2 hop.1 hop.2) (poolInv_create hcreate)
  exact ⟨u, hrun, hinv.conserved hwithin⟩

theorem twoObjects_conserved :
    objectPoolCreate 2 30000 = some ⟨[], [], 2, 30000, 0, 0, 0, 0⟩ ∧
      Follows PoolUse.step (fun u op => u.Allows op ∧ u.Sound op)
        ⟨⟨[], [], 2, 30000, 0, 0, 0, 0⟩, []⟩ [.get (some 4096), .get none, .put 4120] ∧
      ∃ u, runFrom PoolUse.step ⟨⟨[], [], 2, 30000, 0, 0, 0, 0⟩, []⟩
        [.get (some 4096), .get none, .put 4120] = some u ∧ Conserved u := by
  have h : Follows PoolUse.step (fun u op => u.Allows op ∧ u.Sound op)
      ⟨⟨[], [], 2, 30000, 0, 0, 0, 0⟩, []⟩ [.get (some 4096), .get none, .put 4120] := by
    decide +kernel
  exact ⟨by decide, h, objects_conserved 2 30000 (by decide) _ h⟩

/-- An object that the pool takes on, and that does not fit into a slab. -/
theorem largeObject_not_conserved :
    ¬ ∀ objectLimits objectSize omp, objectPoolCreate objectLimits objectSize = some omp → ∀ ops,
      Follows PoolUse.step PoolUse.Allows ⟨omp, []⟩ ops →
        ∃ u, runFrom PoolUse.step ⟨omp, []⟩ ops = some u ∧ Conserved u := by
  intro hclaim
  obtain ⟨u, hrun, -⟩ :=
    hclaim 0 65520 ⟨[], [], 0, 65520, 0, 0, 0, 0⟩ (by decide) [.get (some 4096)]
    (by decide +kernel)
  have hnone :
      runFrom PoolUse.step ⟨⟨[], [], 0, 65520, 0, 0, 0, 0⟩, []⟩ [.get (some 4096)] = none := by
    decide +kernel
  rw [hnone] at hrun
  cases hrun

end CloudHands.Mem
