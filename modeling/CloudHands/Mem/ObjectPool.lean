import CloudHands.Lib.Extent
import CloudHands.Lib.Guarded
import CloudHands.Lib.Word

/-!
# Object pools

`common/ch_object_pool.c`. Items and slabs are known by their addresses; what `malloc` returns is
part of the input. Taking an item from an empty list has no result. `obj_init` gets the object
only, and is left out.
-/

namespace CloudHands.Mem

open Lib
open CloudHands.Word (add sub)

def objectMemSize : ℕ := 64 * 1024

/-- `sizeof(ch_object_mem_t)`. -/
def objectMemHeader : ℕ := 8

/-- `sizeof(ch_object_item_t)`. -/
def objectItemHeader : ℕ := 16

/-- `ch_object_pool_t`; `mmList` has the slabs, `freeList` the items. -/
structure ObjectPool where
  mmList : List ℕ
  freeList : List ℕ
  objectLimits : ℕ
  objectSize : ℕ
  nObjects : ℕ
  nMms : ℕ
  nFrees : ℕ
  nUsing : ℕ
deriving DecidableEq, Repr

/-- `r_item_size`. -/
def ObjectPool.itemBytes (omp : ObjectPool) : ℕ := omp.objectSize + objectItemHeader

def objectPoolCreate (objectLimits objectSize : ℕ) : Option ObjectPool :=
  if objectMemSize ≤ objectSize then none
  else some ⟨[], [], objectLimits, objectSize, 0, 0, 0, 0⟩

def addItem (omp : ObjectPool) (item : ℕ) : ObjectPool :=
  { omp with
    freeList := omp.freeList ++ [item]
    nFrees := add 64 omp.nFrees 1
    nObjects := add 64 omp.nObjects 1 }

/-- The loop of `_new_memory`; an item has at least the bytes of its header, so that
`objectMemSize` turns are enough. -/
def addItems (stop : ℕ) : ℕ → ℕ → ObjectPool → ObjectPool
  | 0, _, omp => omp
  | left + 1, pos, omp =>
    if pos + omp.itemBytes < stop then addItems stop left (pos + omp.itemBytes) (addItem omp pos)
    else omp

/-- `_new_memory`; nothing when `malloc` returns `NULL`. -/
def newMemory (omp : ObjectPool) (addr : Option ℕ) : Option ObjectPool :=
  addr.map fun addr =>
    let omp := addItems (addr + objectMemSize) objectMemSize (addr + objectMemHeader) omp
    { omp with mmList := addr :: omp.mmList, nMms := add 64 omp.nMms 1 }

/-- The end of `ch_object_pool_get`. -/
def takeItem (omp : ObjectPool) : Option (Option ℕ × ObjectPool) :=
  match omp.freeList with
  | [] => none
  | item :: items =>
    some (some (item + objectItemHeader),
      { omp with
        freeList := items
        nFrees := sub 64 omp.nFrees 1
        nUsing := add 64 omp.nUsing 1 })

/-- `ch_object_pool_get`; a result without an object is `NULL`. -/
def objectPoolGet (omp : ObjectPool) (addr : Option ℕ) : Option (Option ℕ × ObjectPool) :=
  if omp.freeList = [] then
    if omp.objectLimits ≠ 0 ∧ omp.objectLimits < omp.nObjects then some (none, omp)
    else
      match newMemory omp addr with
      | none => some (none, omp)
      | some omp => takeItem omp
  else takeItem omp

def objectPoolPut (omp : ObjectPool) (obj : ℕ) : ObjectPool :=
  if obj = 0 then omp
  else
    { omp with
      freeList := omp.freeList ++ [obj - objectItemHeader]
      nFrees := add 64 omp.nFrees 1
      nUsing := sub 64 omp.nUsing 1 }

/-- A pool with the objects that were obtained from it and not put back. -/
structure PoolUse where
  pool : ObjectPool
  objects : List ℕ
deriving DecidableEq, Repr

inductive PoolOp
  | get (addr : Option ℕ)
  | put (obj : ℕ)
deriving DecidableEq, Repr

def PoolUse.step (u : PoolUse) : PoolOp → Option PoolUse
  | .get addr =>
    (objectPoolGet u.pool addr).map fun r =>
      match r.1 with
      | none => ⟨r.2, u.objects⟩
      | some obj => ⟨r.2, obj :: u.objects⟩
  | .put obj => some ⟨objectPoolPut u.pool obj, u.objects.erase obj⟩

/-- The contracts: `malloc` returns memory that no other slab has, and only objects that were
obtained are put. -/
def PoolUse.Allows (u : PoolUse) : PoolOp → Prop
  | .get addr => ∀ a ∈ addr, Extent.Within ⟨a, objectMemSize⟩ 1 (2 ^ 64) ∧
      ∀ slab ∈ u.pool.mmList, Extent.Apart ⟨a, objectMemSize⟩ ⟨slab, objectMemSize⟩
  | .put obj => obj ∈ u.objects

instance decidablePoolAllows (u : PoolUse) : (op : PoolOp) → Decidable (u.Allows op)
  | .get addr =>
    inferInstanceAs (Decidable (∀ a ∈ addr, Extent.Within ⟨a, objectMemSize⟩ 1 (2 ^ 64) ∧
      ∀ slab ∈ u.pool.mmList, Extent.Apart ⟨a, objectMemSize⟩ ⟨slab, objectMemSize⟩))
  | .put obj => inferInstanceAs (Decidable (obj ∈ u.objects))

end CloudHands.Mem
