import CloudHands.Lib.Word

/-!
# Memory pools

`common/ch_mpool.c`. A chunk is the memory of one `memalign`, and a place in it its distance
from the start of the chunk, which the alignment of a pool divides. A block is the memory of one
`malloc` or `memalign` for a caller. Allocations succeed, and give memory that nothing else has.
-/

namespace CloudHands.Mem

open CloudHands.Word (sub)

/-- `sizeof(ch_pool_data_t)`. -/
def poolDataSize : ℕ := 32

/-- `sizeof(ch_pool_t)`. -/
def poolSize : ℕ := 80

/-- `sizeof(ch_pool_large_t)`. -/
def poolLargeSize : ℕ := 16

/-- `sizeof(ch_pool_cleanup_t)`. -/
def poolCleanupSize : ℕ := 24

def maxAllocFromPool : ℕ := 4095

/-- `ch_align_ptr` for `CH_ALIGNMENT`. -/
def alignPtr (m : ℕ) : ℕ := (m + 7) / 8 * 8

structure Region where
  chunk : ℕ
  start : ℕ
  len : ℕ
deriving DecidableEq, Repr

inductive PoolPtr
  | small (r : Region)
  | large (block : ℕ)
deriving DecidableEq, Repr

/-- `ch_pool_data_t` of a chunk; the chunks are in the order of `next`. -/
structure PoolData where
  block : ℕ
  last : ℕ
  dataEnd : ℕ
  failed : ℕ
deriving DecidableEq, Repr

/-- `ch_pool_large_t`, with the memory that it is kept in. -/
structure PoolLarge where
  place : Region
  alloc : Option ℕ
deriving DecidableEq, Repr

/-- `ch_pool_cleanup_t`, with the memory that it is kept in. -/
structure PoolCleanup where
  place : PoolPtr
  data : Option PoolPtr
deriving DecidableEq, Repr

/-- `ch_pool_t` with its chunks, and the blocks that were taken and given back so far. -/
structure MemPool where
  chunks : List PoolData
  max : ℕ
  current : ℕ
  large : List PoolLarge
  cleanup : List PoolCleanup
  nextBlock : ℕ
  freed : List ℕ
deriving DecidableEq, Repr

/-- `ch_pool_create`. -/
def poolCreate (size : ℕ) : MemPool :=
  { chunks := [⟨0, poolSize, size, 0⟩]
    max := min (sub 64 size poolSize) maxAllocFromPool
    current := 0
    large := []
    cleanup := []
    nextBlock := 1
    freed := [] }

namespace MemPool

/-- The place that the loop of `ch_palloc_small` finds, from the chunk with the given number on. -/
def findPlace (size : ℕ) (align : Bool) : ℕ → List PoolData → Option Region
  | _, [] => none
  | i, c :: chunks =>
    let m := if align then alignPtr c.last else c.last
    if size ≤ sub 64 c.dataEnd m then some ⟨i, m, size⟩ else findPlace size align (i + 1) chunks

/-- The loop of `ch_palloc_block` over the chunks before the last: it counts a failure of each and
moves `current` behind one that has failed too often. -/
def countFailures : ℕ → ℕ → List PoolData → List PoolData × ℕ
  | _, current, [] => ([], current)
  | _, current, [c] => ([c], current)
  | i, current, c :: c' :: chunks =>
    let r := countFailures (i + 1) (if 4 < c.failed then i + 1 else current) (c' :: chunks)
    ({ c with failed := c.failed + 1 } :: r.1, r.2)

/-- `ch_palloc_block`. A new chunk is as large as the first. -/
def pallocBlock (p : MemPool) (size : ℕ) : MemPool × Region :=
  let psize := (p.chunks.head?.map (·.dataEnd)).getD 0
  let m := alignPtr poolDataSize
  let r := countFailures p.current p.current (p.chunks.drop p.current)
  ({ p with
      chunks := p.chunks.take p.current ++ r.1 ++ [⟨p.nextBlock, m + size, psize, 0⟩]
      current := r.2
      nextBlock := p.nextBlock + 1 }, ⟨p.chunks.length, m, size⟩)

/-- `ch_palloc_small`. -/
def pallocSmall (p : MemPool) (size : ℕ) (align : Bool) : MemPool × Region :=
  match findPlace size align p.current (p.chunks.drop p.current) with
  | some r =>
    ({ p with chunks := p.chunks.modify r.chunk fun c => { c with last := r.start + size } }, r)
  | none => p.pallocBlock size

def addLarge (p : MemPool) (block : ℕ) : MemPool :=
  let r := p.pallocSmall poolLargeSize true
  { r.1 with large := ⟨r.2, some block⟩ :: r.1.large }

/-- `ch_palloc_large`. Of the records only the first five are looked at for one without a block. -/
def pallocLarge (p : MemPool) : MemPool × ℕ :=
  let block := p.nextBlock
  let p := { p with nextBlock := p.nextBlock + 1 }
  match (p.large.take 5).findIdx? (·.alloc = none) with
  | some i => ({ p with large := p.large.modify i fun l => { l with alloc := some block } }, block)
  | none => (p.addLarge block, block)

/-- `ch_palloc`, `ch_pcalloc` and, without alignment, `ch_pnalloc`. -/
def palloc (p : MemPool) (size : ℕ) (align : Bool) : MemPool × PoolPtr :=
  if size ≤ p.max then
    let r := p.pallocSmall size align
    (r.1, .small r.2)
  else
    let r := p.pallocLarge
    (r.1, .large r.2)

/-- `ch_pmemalign`. -/
def pmemalign (p : MemPool) : MemPool × PoolPtr :=
  ({ p with nextBlock := p.nextBlock + 1 }.addLarge p.nextBlock, .large p.nextBlock)

/-- `ch_pfree`, with its result other than -1. -/
def pfree (p : MemPool) (block : ℕ) : MemPool × Bool :=
  match p.large.findIdx? (·.alloc = some block) with
  | some i =>
    ({ p with
        large := p.large.modify i fun l => { l with alloc := none }
        freed := block :: p.freed }, true)
  | none => (p, false)

/-- `ch_pool_cleanup_add`. -/
def cleanupAdd (p : MemPool) (size : ℕ) : MemPool × Option PoolPtr :=
  let c := p.palloc poolCleanupSize true
  if size = 0 then ({ c.1 with cleanup := ⟨c.2, none⟩ :: c.1.cleanup }, none)
  else
    let d := c.1.palloc size true
    ({ d.1 with cleanup := ⟨c.2, some d.2⟩ :: d.1.cleanup }, some d.2)

def blocks (p : MemPool) : List ℕ := p.large.filterMap (·.alloc)

/-- `ch_pool_reset`. -/
def reset (p : MemPool) : MemPool :=
  { p with
    chunks := p.chunks.map fun c => { c with last := poolSize, failed := 0 }
    current := 0
    large := []
    freed := p.blocks.reverse ++ p.freed }

/-- What `ch_pool_destroy` frees, in its order, behind what was freed before. -/
def destroy (p : MemPool) : List ℕ := (p.blocks ++ p.chunks.map (·.block)).reverse ++ p.freed

end MemPool

end CloudHands.Mem
