import CloudHands.Lib.Guarded
import CloudHands.Sa.SessionHandler

/-!
# The pool of the data stores

`ch_sa_data_store_pool.{h,c}` with the stores at their addresses, and what the memory pool
returns as part of the input. The positions of a store are distances from its `start`. A store
whose mark is gone aborts the program, which is no result.
-/

namespace CloudHands.Sa

open Lib
open CloudHands.Word (add sub)

/-- `DS_PROTECT_V`. -/
def dsProtectV : ℕ := 1234

def maxDsize : ℕ := 512

def preAllocN : ℕ := 1000

/-- `ch_sa_data_store_t`, with the memory behind its `start`. -/
structure StoreCell where
  dsProtect : ℕ
  bytes : ℕ → UInt8
  pos : ℕ
  stop : ℕ

/-- `ch_sa_data_store_pool_t`, with the memory of the stores. -/
structure StorePool where
  store : ℕ → StoreCell
  dstoreFreeList : List ℕ
  freeN : ℕ
  usingN : ℕ
  allacDstoreN : ℕ
  dsize : ℕ
  dstoreLimits : ℕ

def StorePool.setPos (dsp : StorePool) (dst pos : ℕ) : StorePool :=
  { dsp with store := Function.update dsp.store dst { dsp.store dst with pos := pos } }

def StorePool.initStore (dsp : StorePool) (dst : ℕ) (bytes : ℕ → UInt8) : StorePool :=
  { dsp with store := Function.update dsp.store dst ⟨dsProtectV, bytes, 0, dsp.dsize⟩ }

/-- A turn of the loop of `ch_sa_data_store_pool_create`; `ch_palloc` leaves the memory as it is. -/
def StorePool.preStore (dsp : StorePool) (dst : ℕ) : StorePool :=
  let dsp := dsp.initStore dst (dsp.store dst).bytes
  { dsp with
    allacDstoreN := add 32 dsp.allacDstoreN 1
    freeN := add 32 dsp.freeN 1
    dstoreFreeList := dsp.dstoreFreeList ++ [dst] }

/-- The loop, which the first failure of `ch_palloc` ends. -/
def preAllocStores : List (Option ℕ) → StorePool → StorePool
  | some dst :: allocated, dsp => preAllocStores allocated (dsp.preStore dst)
  | _, dsp => dsp

/-- `ch_sa_data_store_pool_create` after `ch_pool_create`; the `i`-th call of `ch_palloc` for a
store returns `palloc i`. -/
def storePoolCreate (dsize dstoreLimits : UInt32) (store : ℕ → StoreCell) (palloc : ℕ → Option ℕ) :
    StorePool :=
  preAllocStores ((List.range preAllocN).map palloc)
    { store := store
      dstoreFreeList := []
      freeN := 0
      usingN := 0
      allacDstoreN := 0
      dsize := if dsize.toNat < maxDsize then dsize.toNat else maxDsize
      dstoreLimits := dstoreLimits.toNat }

/-- `ch_sa_data_store_get`; `pcalloc` is what `ch_pcalloc` returns if it is called. -/
def storeGet (dsp : StorePool) (pcalloc : Option ℕ) : Option (Option ℕ × StorePool) :=
  if dsp.dstoreLimits < dsp.allacDstoreN ∧ dsp.dstoreFreeList = [] then some (none, dsp)
  else
    match dsp.dstoreFreeList with
    | [] =>
      match pcalloc with
      | none => some (none, dsp)
      | some dst =>
        let dsp := dsp.initStore dst fun _ => 0
        some (some dst,
          { dsp with
            usingN := add 32 dsp.usingN 1
            allacDstoreN := add 32 dsp.allacDstoreN 1 })
    | dst :: rest =>
      if (dsp.store dst).dsProtect ≠ dsProtectV then none
      else
        let dsp := dsp.setPos dst 0
        some (some dst,
          { dsp with
            dstoreFreeList := rest
            freeN := sub 32 dsp.freeN 1
            usingN := add 32 dsp.usingN 1 })

/-- `ch_sa_data_store_free`. -/
def storeFree (dsp : StorePool) (dst : ℕ) : Option StorePool :=
  if (dsp.store dst).dsProtect ≠ dsProtectV then none
  else
    let dsp := dsp.setPos dst 0
    some { dsp with
      dstoreFreeList := dsp.dstoreFreeList ++ [dst]
      freeN := add 32 dsp.freeN 1
      usingN := sub 32 dsp.usingN 1 }

/-- `memcpy` into the memory behind the `start` of a store. -/
def copyAt (bytes : ℕ → UInt8) (pos : ℕ) (data : List UInt8) : ℕ → UInt8 :=
  fun i => if pos ≤ i ∧ i < pos + data.length then data.getD (i - pos) 0 else bytes i

/-- `ch_sa_data_store_write`. -/
def storeWrite (dsp : StorePool) (dst : ℕ) (data : List UInt8) : Option StorePool :=
  let cell := dsp.store dst
  if cell.dsProtect ≠ dsProtectV then none
  else
    let rDsize := sub 64 cell.stop cell.pos
    let rDsize := if data.length < rDsize then data.length else rDsize
    if rDsize = 0 then some dsp
    else
      some { dsp with
        store := Function.update dsp.store dst
          { cell with
            bytes := copyAt cell.bytes cell.pos (data.take rDsize)
            pos := cell.pos + rDsize } }

/-- `ch_sa_data_store_size`. -/
def StorePool.storeSize (dsp : StorePool) (dst : ℕ) : ℕ := (dsp.store dst).pos

/-- A pool with the stores that were allocated, and those that were obtained and not yet freed. -/
structure StoreUse where
  pool : StorePool
  allocated : List ℕ
  inUse : List ℕ

inductive StoreOp
  | get (pcalloc : Option ℕ)
  | free (dst : ℕ)
  | write (dst : ℕ) (data : List UInt8)
deriving DecidableEq, Repr

/-- The pool as `ch_sa_data_store_pool_create` leaves it. -/
def StoreUse.start (dsize dstoreLimits : UInt32) (store : ℕ → StoreCell) (palloc : ℕ → Option ℕ) :
    StoreUse :=
  let dsp := storePoolCreate dsize dstoreLimits store palloc
  ⟨dsp, dsp.dstoreFreeList, []⟩

def StoreUse.step (u : StoreUse) : StoreOp → Option StoreUse
  | .get pcalloc =>
    (storeGet u.pool pcalloc).map fun r =>
      ⟨r.2, (if u.pool.dstoreFreeList = [] then r.1.toList else []) ++ u.allocated,
        r.1.toList ++ u.inUse⟩
  | .free dst =>
    (storeFree u.pool dst).map fun dsp => { u with pool := dsp, inUse := u.inUse.erase dst }
  | .write dst data => (storeWrite u.pool dst data).map fun dsp => { u with pool := dsp }

/-- The contracts: `ch_pcalloc` returns memory that no store has, only stores that were obtained and
not yet freed are freed, and only stores are written. -/
def StoreUse.Allows (u : StoreUse) : StoreOp → Prop
  | .get pcalloc => ∀ dst ∈ pcalloc, dst ∉ u.allocated
  | .free dst => dst ∈ u.inUse
  | .write dst _ => dst ∈ u.allocated

instance decidableStoreAllows (u : StoreUse) : (op : StoreOp) → Decidable (u.Allows op)
  | .get pcalloc => inferInstanceAs (Decidable (∀ dst ∈ pcalloc, dst ∉ u.allocated))
  | .free dst => inferInstanceAs (Decidable (dst ∈ u.inUse))
  | .write dst _ => inferInstanceAs (Decidable (dst ∈ u.allocated))

/-- Every store is free or in use, not both, the counters tell how many, the limit is kept, a store
that is handed out is empty, and none holds more than it has room for. -/
structure StoreUse.Conserved (u : StoreUse) : Prop where
  count : u.pool.freeN + u.pool.usingN = u.allocated.length
  stores : (u.pool.dstoreFreeList ++ u.inUse).Perm u.allocated
  disjoint : (u.pool.dstoreFreeList ++ u.inUse).Nodup
  limit : u.allocated.length ≤ u.pool.dstoreLimits
  empty : ∀ pcalloc dst dsp, storeGet u.pool pcalloc = some (some dst, dsp) → dsp.storeSize dst = 0
  room : ∀ dst ∈ u.allocated, u.pool.storeSize dst ≤ (u.pool.store dst).stop

def StoreUse.Sound (u : StoreUse) : StoreOp → Prop
  | .get pcalloc =>
    u.pool.dstoreFreeList = [] → pcalloc ≠ none → u.pool.allacDstoreN < u.pool.dstoreLimits
  | _ => True

instance decidableStoreSound (u : StoreUse) : (op : StoreOp) → Decidable (u.Sound op)
  | .get pcalloc =>
    inferInstanceAs (Decidable (u.pool.dstoreFreeList = [] → pcalloc ≠ none →
      u.pool.allacDstoreN < u.pool.dstoreLimits))
  | .free _ => inferInstanceAs (Decidable True)
  | .write _ _ => inferInstanceAs (Decidable True)

end CloudHands.Sa
