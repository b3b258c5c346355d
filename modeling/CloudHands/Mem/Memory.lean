import CloudHands.Lib.Extent
import CloudHands.Lib.Guarded
import CloudHands.Lib.Keyed
import CloudHands.Lib.Smear
import CloudHands.Lib.Word

/-!
# Memory blocks and their cache

`ptables/ch_memory.c` and `ptables/ch_memory_cache.c`. A block is known by its address. What
`rte_malloc` and `malloc` answer is part of the input, and so are the readings of the clock. An
access to a block that was given back, or past the end of one, has no result. What the blocks
contain after their headers is left out, so that `ch_memory_alloc` and `ch_memory_calloc` are one
function.
-/

namespace CloudHands.Mem

open Lib
open CloudHands.Word (add sub)

structure Counter where
  value : ℕ
  borrowed : Bool
deriving DecidableEq, Repr

namespace Counter

def zero : Counter := ⟨0, false⟩

def plus (c : Counter) (n : ℕ) : Counter := { c with value := add 64 c.value n }

def minus (c : Counter) (n : ℕ) : Counter := ⟨sub 64 c.value n, c.borrowed || decide (c.value < n)⟩

def reset (c : Counter) : Counter := { c with value := 0 }

end Counter

inductive Origin
  | sys
  | dpdk
deriving DecidableEq, Repr

def mProtectV : ℕ := 1234

/-- `sizeof(ch_memory_item_t)`. -/
def itemSize : ℕ := 48

/-- `ch_memory_item_t`, without its place in a list. -/
structure MemoryItem where
  mProtect : ℕ
  type : Origin
  fromCache : Bool
  size : ℕ
  rsize : ℕ
deriving DecidableEq, Repr

/-- A block of `bytes` bytes that the system or DPDK has handed out, with the item at its front. -/
structure Block where
  addr : ℕ
  bytes : ℕ
  item : MemoryItem
deriving DecidableEq, Repr

def maxCachePow : ℕ := 16

def maxCacheSizeD : ℕ := 67108864

abbrev maxCacheIndex : ℕ := maxCachePow + 1

/-- `ch_memory_cache_header_t`; the items are addresses of blocks. -/
structure CacheHeader where
  nHits : ℕ
  nNohits : ℕ
  nCaches : Counter
  lastFindTime : ℕ
  items : List ℕ
deriving DecidableEq, Repr

/-- `ch_memory_cache_t`. -/
structure MemoryCache where
  maxCacheSize : ℕ
  curCacheSize : ℕ
  timeout : ℕ
  cacheHeaders : Fin maxCacheIndex → CacheHeader

/-- `ch_memory_t`, with the blocks that were obtained and not given back. -/
structure Memory where
  blocks : List Block
  mcache : Option MemoryCache
  useSize : Counter
  useSysSize : Counter
  useDpdkSize : Counter
  cacheHitsSize : ℕ

def blockAt (m : Memory) (a : ℕ) : Option Block := Keyed.lookup Block.addr m.blocks a

def align64pow2 (v : ℕ) : ℕ := add 64 (smear64 (sub 64 v 1)) 1

def realSize (size : ℕ) : ℕ := align64pow2 (add 64 size itemSize)

/-- The `switch` at the end of `ch_memory_free` and of `ch_memory_item_free`. -/
def giveBack (m : Memory) (a rsize : ℕ) : Option Memory :=
  match blockAt m a with
  | none => none
  | some b =>
    some
      { m with
        blocks := Keyed.remove Block.addr m.blocks a
        useSysSize := if b.item.type = .sys then m.useSysSize.minus rsize else m.useSysSize
        useDpdkSize := if b.item.type = .dpdk then m.useDpdkSize.minus rsize else m.useDpdkSize
        useSize := m.useSize.minus rsize }

/-- `ch_memory_item_free`; it takes the size that was asked for. -/
def memoryItemFree (m : Memory) (a : ℕ) : Option Memory :=
  match blockAt m a with
  | none => none
  | some b => if b.item.mProtect = mProtectV then giveBack m a b.item.size else none

def memoryItemsFree (m : Memory) : List ℕ → Option Memory
  | [] => some m
  | a :: as => (memoryItemFree m a).bind fun m => memoryItemsFree m as

def getIndexFrom (size : ℕ) : ℕ → ℕ → ℕ
  | 0, i => i
  | left + 1, i => if 2 ^ i < size then getIndexFrom size left (i + 1) else i

def getIndex (size : ℕ) : ℕ := getIndexFrom size (maxCachePow + 1) 0

/-- `ch_memory_cache_create`; `clock` is the time in seconds that is read for each header. -/
def memoryCacheCreate (maxCacheSize timeout : ℕ) (clock : Fin maxCacheIndex → ℕ) : MemoryCache where
  maxCacheSize := if maxCacheSize < maxCacheSizeD then maxCacheSizeD else maxCacheSize
  curCacheSize := 0
  timeout := timeout
  cacheHeaders i := ⟨0, 0, .zero, clock i, []⟩

def MemoryCache.setHeader (mc : MemoryCache) (i : Fin maxCacheIndex) (ch : CacheHeader) :
    MemoryCache :=
  { mc with cacheHeaders := Function.update mc.cacheHeaders i ch }

/-- The loop of `ch_memory_cache_reset` over the headers. -/
def resetHeaders (clock : Fin maxCacheIndex → ℕ) :
    List (Fin maxCacheIndex) → Memory → MemoryCache → Option (Memory × MemoryCache)
  | [], m, mc => some (m, mc)
  | i :: is, m, mc =>
    let ch := mc.cacheHeaders i
    (memoryItemsFree m ch.items).bind fun m =>
      resetHeaders clock is m (mc.setHeader i ⟨0, 0, ch.nCaches.reset, clock i, []⟩)

def memoryCacheReset (m : Memory) (mc : MemoryCache) (clock : Fin maxCacheIndex → ℕ) :
    Option (Memory × MemoryCache) :=
  resetHeaders clock (List.finRange maxCacheIndex) m { mc with curCacheSize := 0 }

def memoryCacheFind (mc : MemoryCache) (size now : ℕ) : Option ℕ × MemoryCache :=
  if h : getIndex size < maxCacheIndex then
    let i : Fin maxCacheIndex := ⟨getIndex size, h⟩
    let ch := { mc.cacheHeaders i with lastFindTime := now }
    match ch.items with
    | [] => (none, mc.setHeader i { ch with nNohits := add 64 ch.nNohits 1 })
    | a :: as =>
      (some a, mc.setHeader i
        { ch with items := as, nHits := add 64 ch.nHits 1, nCaches := ch.nCaches.minus 1 })
  else (none, mc)

def shouldUpdate (mc : MemoryCache) (ch : CacheHeader) (now : ℕ) : Bool :=
  if ch.nCaches.value = 0 then true
  else if mc.timeout < sub 64 now ch.lastFindTime then false
  else decide (ch.nCaches.value < ch.nNohits)

/-- The second half of `ch_memory_cache_update`, with the answer whether the block is kept. -/
def memoryCacheInsert (mc : MemoryCache) (b : Block) (now : ℕ) : Bool × MemoryCache :=
  if h : getIndex b.item.rsize < maxCacheIndex then
    let i : Fin maxCacheIndex := ⟨getIndex b.item.rsize, h⟩
    let ch := mc.cacheHeaders i
    if shouldUpdate mc ch now then
      let mc := mc.setHeader i { ch with nCaches := ch.nCaches.plus 1, items := b.addr :: ch.items }
      (true,
        if b.item.fromCache then mc
        else { mc with curCacheSize := add 64 mc.curCacheSize b.item.rsize })
    else (false, mc)
  else (false, mc)

def memoryCacheUpdate (m : Memory) (mc : MemoryCache) (b : Block) (clock : Fin maxCacheIndex → ℕ)
    (now : ℕ) : Option (Bool × Memory × MemoryCache) :=
  let full := mc.maxCacheSize < add 64 mc.curCacheSize b.item.rsize
  (if full then memoryCacheReset m mc clock else some (m, mc)).map fun r =>
    let kept := memoryCacheInsert r.2 b now
    (kept.1, r.1, kept.2)

def memoryCreate (maxCacheSize timeout : ℕ) (clock : Fin maxCacheIndex → ℕ) : Memory where
  blocks := []
  mcache := if 0 < maxCacheSize then some (memoryCacheCreate maxCacheSize timeout clock) else none
  useSize := .zero
  useSysSize := .zero
  useDpdkSize := .zero
  cacheHitsSize := 0

/-- What `rte_malloc` returns, and what `malloc` returns when that is nothing. -/
structure Grant where
  rte : Option ℕ
  sys : Option ℕ
deriving DecidableEq, Repr

def Grant.block (g : Grant) : Option (ℕ × Origin) :=
  match g.rte with
  | some a => some (a, .dpdk)
  | none => g.sys.map fun a => (a, .sys)

/-- The part of `do_memory_alloc` after the cache; the item has to fit into the block. -/
def systemAlloc (m : Memory) (size rsize : ℕ) (g : Grant) : Option (Option ℕ × Memory) :=
  match g.block with
  | none => some (none, m)
  | some (a, type) =>
    if rsize < itemSize then none
    else
      some (some a,
        { m with
          blocks := ⟨a, rsize, ⟨mProtectV, type, false, size, rsize⟩⟩ :: m.blocks
          useSize := m.useSize.plus rsize
          useSysSize := if type = .sys then m.useSysSize.plus rsize else m.useSysSize
          useDpdkSize := if type = .dpdk then m.useDpdkSize.plus rsize else m.useDpdkSize })

def reuse (m : Memory) (a size rsize : ℕ) : Option Memory :=
  match blockAt m a with
  | none => none
  | some _ =>
    some
      { m with
        blocks := Keyed.modify Block.addr m.blocks a fun b =>
          { b with item := { b.item with size := size, rsize := rsize, fromCache := true } }
        cacheHitsSize := add 64 m.cacheHitsSize rsize }

/-- `do_memory_alloc` after the size is rounded; a result without an address is `NULL`. -/
def allocRounded (m : Memory) (size rsize now : ℕ) (g : Grant) : Option (Option ℕ × Memory) :=
  match m.mcache with
  | none => systemAlloc m size rsize g
  | some mc =>
    match memoryCacheFind mc rsize now with
    | (none, mc) => systemAlloc { m with mcache := some mc } size rsize g
    | (some a, mc) => (reuse { m with mcache := some mc } a size rsize).map fun m => (some a, m)

def doMemoryAlloc (m : Memory) (size now : ℕ) (g : Grant) : Option (Option ℕ × Memory) :=
  allocRounded m size (realSize size) now g

def memoryFree (m : Memory) (a : ℕ) (clock : Fin maxCacheIndex → ℕ) (now : ℕ) : Option Memory :=
  match blockAt m a with
  | none => none
  | some b =>
    if b.item.mProtect = mProtectV then
      match m.mcache with
      | none => giveBack m a b.item.rsize
      | some mc =>
        match memoryCacheUpdate m mc b clock now with
        | none => none
        | some (true, m, mc) => some { m with mcache := some mc }
        | some (false, m, mc) => giveBack { m with mcache := some mc } a b.item.rsize
    else none

structure Held where
  addr : ℕ
  size : ℕ
deriving DecidableEq, Repr

structure World where
  mem : Memory
  held : List Held

inductive MemOp
  | alloc (size now : ℕ) (g : Grant)
  | free (a : ℕ) (clock : Fin maxCacheIndex → ℕ) (now : ℕ)
  | reset (clock : Fin maxCacheIndex → ℕ)

def World.create (maxCacheSize timeout : ℕ) (clock : Fin maxCacheIndex → ℕ) : World :=
  ⟨memoryCreate maxCacheSize timeout clock, []⟩

def World.step (w : World) : MemOp → Option World
  | .alloc size now g =>
    (doMemoryAlloc w.mem size now g).map fun r =>
      match r.1 with
      | none => ⟨r.2, w.held⟩
      | some a => ⟨r.2, ⟨a, size⟩ :: w.held⟩
  | .free a clock now =>
    (memoryFree w.mem a clock now).map fun m => ⟨m, w.held.filter fun h => h.addr ≠ a⟩
  | .reset clock =>
    match w.mem.mcache with
    | none => some w
    | some mc =>
      (memoryCacheReset w.mem mc clock).map fun r => ⟨{ r.1 with mcache := some r.2 }, w.held⟩

def Block.extent (b : Block) : Extent := ⟨b.addr, b.bytes⟩

def Grant.Fresh (g : Grant) (m : Memory) (rsize : ℕ) : Prop :=
  ∀ a type, g.block = some (a, type) →
    Extent.Within ⟨a, rsize⟩ 1 (2 ^ 64) ∧ ∀ b ∈ m.blocks, Extent.Apart ⟨a, rsize⟩ b.extent

instance (g : Grant) (m : Memory) (rsize : ℕ) : Decidable (g.Fresh m rsize) :=
  match h : g.block with
  | none => isTrue (by simp [Grant.Fresh, h])
  | some (a, _) =>
    decidable_of_iff
      (Extent.Within ⟨a, rsize⟩ 1 (2 ^ 64) ∧ ∀ b ∈ m.blocks, Extent.Apart ⟨a, rsize⟩ b.extent)
      (by simp [Grant.Fresh, h])

/-- The contract of the caller: only what it holds is freed. -/
def World.Allows (w : World) : MemOp → Prop
  | .alloc size _ g => size < 2 ^ 64 ∧ g.Fresh w.mem (realSize size)
  | .free a _ _ => a ∈ w.held.map Held.addr
  | .reset _ => True

instance (w : World) : (op : MemOp) → Decidable (w.Allows op)
  | .alloc size _ g => inferInstanceAs (Decidable (size < 2 ^ 64 ∧ g.Fresh w.mem (realSize size)))
  | .free a _ _ => inferInstanceAs (Decidable (a ∈ w.held.map Held.addr))
  | .reset _ => inferInstanceAs (Decidable True)

end CloudHands.Mem
