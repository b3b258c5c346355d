import CloudHands.Lib.UpdateSum
import CloudHands.Mem.Run

/-!
# What the counters say

A block that is handed out from the cache stays in `cur_cache_size`, and is not added again when
it comes back; a block that a reset gives back takes the size that was asked for out of
`use_size`, and not the size it has. In runs where neither happens the counters are exact.
-/

namespace CloudHands.Mem

open Lib
open CloudHands.Word (add sub)

variable {m : Memory} {blocks : List Block} {held : List ℕ} {mc : MemoryCache} {a : ℕ} {w : World}

def totalSize (blocks : List Block) : ℕ := (blocks.map Block.bytes).sum

def sizeFrom (type : Origin) (blocks : List Block) : ℕ :=
  totalSize (blocks.filter fun b => b.item.type = type)

def cachedSize (blocks : List Block) (mc : MemoryCache) : ℕ :=
  ∑ i, ((mc.cacheHeaders i).items.map fun a => (bytesAt blocks a).getD 0).sum

def bucketsSize (mc : MemoryCache) : ℕ := ∑ i, (mc.cacheHeaders i).items.length * 2 ^ (i : ℕ)

theorem CacheOk.cachedSize_eq (h : CacheOk blocks held mc) :
    cachedSize blocks mc = bucketsSize mc := by
  apply Finset.sum_congr rfl
  intro i _
  have hconst : ((mc.cacheHeaders i).items.map fun a => (bytesAt blocks a).getD 0) =
      (mc.cacheHeaders i).items.map fun _ => 2 ^ (i : ℕ) := by
    apply List.map_congr_left
    intro a ha
    rw [h.bytes i a ha]
    rfl
  rw [hconst, List.map_const', List.sum_replicate, smul_eq_mul]

theorem BlocksOk.totalSize_lt (h : BlocksOk blocks) : totalSize blocks < 2 ^ 64 := by
  have hwithin : ∀ x ∈ blocks.map Block.extent, x.Within 1 (2 ^ 64) := by
    intro x hx
    obtain ⟨b, hb, rfl⟩ := List.mem_map.1 hx
    exact h.within b hb
  have hle := Extent.sum_size_le h.apart hwithin
  rw [List.map_map] at hle
  have hsum : totalSize blocks ≤ 2 ^ 64 - 1 := hle
  omega

theorem totalSize_cons (b : Block) : totalSize (b :: blocks) = b.bytes + totalSize blocks := by
  rw [totalSize, List.map_cons, List.sum_cons]
  rfl

theorem sizeFrom_cons (type : Origin) (b : Block) :
    sizeFrom type (b :: blocks) = (if b.item.type = type then b.bytes else 0) +
      sizeFrom type blocks := by
  rw [sizeFrom, List.filter_cons]
  by_cases h : b.item.type = type
  · simp only [h, decide_true, if_true, totalSize_cons]
    rfl
  · simp only [h, decide_false, Bool.false_eq_true, if_false, Nat.zero_add]
    rfl

theorem totalSize_perm {blocks' : List Block} (h : blocks.Perm blocks') :
    totalSize blocks = totalSize blocks' := (h.map _).sum_eq

theorem sizeFrom_perm {blocks' : List Block} (h : blocks.Perm blocks') (type : Origin) :
    sizeFrom type blocks = sizeFrom type blocks' := totalSize_perm (h.filter _)

theorem sizeFrom_le (type : Origin) (blocks : List Block) :
    sizeFrom type blocks ≤ totalSize blocks :=
  (List.filter_sublist.map _).sum_le_sum fun _ _ => Nat.zero_le _

theorem CacheOk.bucketsSize_add_le (h : CacheOk blocks held mc) (hok : BlocksOk blocks) {n : ℕ}
    (ha : a ∈ held) (hn : bytesAt blocks a = some n) : bucketsSize mc + n ≤ totalSize blocks := by
  have hcached :
      (a :: (List.finRange maxCacheIndex).flatMap fun i => (mc.cacheHeaders i).items).Nodup := by
    rw [List.nodup_cons, List.mem_flatMap, List.nodup_flatMap]
    refine ⟨?_, fun i _ => h.nodup i, (List.nodup_finRange _).imp ?_⟩
    · rintro ⟨i, -, hi⟩
      exact h.apart i a hi ha
    · intro i j hij
      exact List.disjoint_left.2 fun _ hi hj => hij (h.bucket_unique hi hj)
  have hsubset : (a :: (List.finRange maxCacheIndex).flatMap fun i => (mc.cacheHeaders i).items) ⊆
      blocks.map Block.addr := by
    have haddr : ∀ a' n', bytesAt blocks a' = some n' → a' ∈ blocks.map Block.addr := by
      intro a' n' ha'
      obtain ⟨b, -, hmem, rfl, -⟩ := bytesAt_eq_some ha'
      exact List.mem_map_of_mem hmem
    refine List.cons_subset.2 ⟨haddr a n hn, fun a' ha' => ?_⟩
    obtain ⟨i, -, hi⟩ := List.mem_flatMap.1 ha'
    exact haddr a' _ (h.bytes i a' hi)
  obtain ⟨l, hperm, hsub⟩ := hcached.subperm hsubset
  have hall : (blocks.map Block.addr).map (fun a => (bytesAt blocks a).getD 0) =
      blocks.map Block.bytes := by
    rw [List.map_map]
    apply List.map_congr_left
    intro b hb
    simp only [Function.comp_apply, bytesAt, Keyed.lookup_of_mem hok.nodup hb, Option.map_some,
      Option.getD_some]
  have hle := (hsub.map fun a => (bytesAt blocks a).getD 0).sum_le_sum fun _ _ => Nat.zero_le _
  rw [hall, (hperm.map _).sum_eq, List.map_cons, List.sum_cons, hn, List.map_flatMap,
    List.flatMap_def, List.sum_flatten, List.map_map] at hle
  rw [← h.cachedSize_eq, cachedSize, Fin.sum_univ_def, Nat.add_comm]
  exact hle

theorem Counter.plus_eq {n k : ℕ} (h : n + k < 2 ^ 64) :
    Counter.plus ⟨n, false⟩ k = ⟨n + k, false⟩ := by
  rw [Counter.plus, Word.add_of_lt h]

theorem Counter.minus_eq {n k : ℕ} (h : k + n < 2 ^ 64) :
    Counter.minus ⟨k + n, false⟩ k = ⟨n, false⟩ := by
  have hnot : ¬ k + n < k := by omega
  rw [Counter.minus, Word.sub_of_le h (Nat.le_add_right k n), Nat.add_sub_cancel_left]
  simp [hnot]

structure CacheBooks (mc : MemoryCache) : Prop where
  cur : mc.curCacheSize = bucketsSize mc
  max : mc.curCacheSize ≤ mc.maxCacheSize
  large : maxCacheSizeD ≤ mc.maxCacheSize
  borrowed : ∀ i, (mc.cacheHeaders i).nCaches.borrowed = false

structure Books (m : Memory) : Prop where
  use : m.useSize = ⟨totalSize m.blocks, false⟩
  sys : m.useSysSize = ⟨sizeFrom .sys m.blocks, false⟩
  dpdk : m.useDpdkSize = ⟨sizeFrom .dpdk m.blocks, false⟩
  cache : ∀ mc, m.mcache = some mc → CacheBooks mc
  first : ∀ b ∈ m.blocks, b.item.fromCache = false

theorem Books.setCache (h : Books m) (hmc : CacheBooks mc) :
    Books { m with mcache := some mc } where
  use := h.use
  sys := h.sys
  dpdk := h.dpdk
  cache := by
    rintro mc' ⟨⟩
    exact hmc
  first := h.first

theorem Books.systemAlloc {size rsize : ℕ} {g : Grant} {r : Option ℕ} {m' : Memory} (h : Books m)
    (halloc : systemAlloc m size rsize g = some (r, m')) (hok : BlocksOk m'.blocks) : Books m' := by
  unfold Mem.systemAlloc at halloc
  split at halloc
  · cases halloc
    exact h
  · rename_i a type hgrant
    split at halloc
    · cases halloc
    · cases halloc
      have htotal := hok.totalSize_lt
      rw [totalSize_cons] at htotal
      dsimp only at htotal
      have hfrom : ∀ t, rsize + sizeFrom t m.blocks < 2 ^ 64 :=
        fun t => lt_of_le_of_lt (Nat.add_le_add_left (sizeFrom_le t m.blocks) _) htotal
      refine ⟨?_, ?_, ?_, h.cache, List.forall_mem_cons.2 ⟨rfl, h.first⟩⟩
      · simp only [totalSize_cons]
        rw [h.use, Counter.plus_eq (by omega), Nat.add_comm]
      · simp only [sizeFrom_cons]
        split
        · rw [h.sys, Counter.plus_eq (by rw [Nat.add_comm]; exact hfrom .sys), Nat.add_comm]
        · rw [h.sys, Nat.zero_add]
      · simp only [sizeFrom_cons]
        split
        · rw [h.dpdk, Counter.plus_eq (by rw [Nat.add_comm]; exact hfrom .dpdk), Nat.add_comm]
        · rw [h.dpdk, Nat.zero_add]

theorem Books.giveBack {b : Block} {m' : Memory} (h : Books m) (hok : BlocksOk m.blocks)
    (hb : blockAt m a = some b) (hgive : giveBack m a b.bytes = some m') : Books m' := by
  rw [Mem.giveBack, hb] at hgive
  cases hgive
  have hperm := Keyed.perm_remove hok.nodup hb
  have htotal := hok.totalSize_lt
  rw [totalSize_perm hperm, totalSize_cons] at htotal
  have hfrom : ∀ t, b.bytes + sizeFrom t (Keyed.remove Block.addr m.blocks a) < 2 ^ 64 :=
    fun t => lt_of_le_of_lt (Nat.add_le_add_left (sizeFrom_le t _) _) htotal
  refine ⟨?_, ?_, ?_, h.cache, fun b' hb' => h.first b' (Keyed.mem_remove.1 hb').1⟩
  · dsimp only
    rw [h.use, totalSize_perm hperm, totalSize_cons, Counter.minus_eq htotal]
  · dsimp only
    rw [h.sys, sizeFrom_perm hperm, sizeFrom_cons]
    split
    · exact Counter.minus_eq (hfrom .sys)
    · rw [Nat.zero_add]
  · dsimp only
    rw [h.dpdk, sizeFrom_perm hperm, sizeFrom_cons]
    split
    · exact Counter.minus_eq (hfrom .dpdk)
    · rw [Nat.zero_add]

theorem bucketsSize_setHeader (i : Fin maxCacheIndex) (ch : CacheHeader) :
    bucketsSize (mc.setHeader i ch) + (mc.cacheHeaders i).items.length * 2 ^ (i : ℕ) =
      bucketsSize mc + ch.items.length * 2 ^ (i : ℕ) :=
  sum_update (fun (i : Fin maxCacheIndex) (ch : CacheHeader) => ch.items.length * 2 ^ (i : ℕ))
    mc.cacheHeaders i ch

theorem CacheBooks.setHeader (h : CacheBooks mc) {i : Fin maxCacheIndex} {ch : CacheHeader}
    (hitems : ch.items = (mc.cacheHeaders i).items) (hborrowed : ch.nCaches.borrowed = false) :
    CacheBooks (mc.setHeader i ch) where
  cur := by
    have hsum := @bucketsSize_setHeader mc i ch
    rw [hitems] at hsum
    exact h.cur.trans (Nat.add_right_cancel hsum).symm
  max := h.max
  large := h.large
  borrowed j := by
    rcases eq_or_ne j i with rfl | hj
    · rwa [setHeader_self]
    · rw [setHeader_of_ne hj]
      exact h.borrowed j

def Misses (mc : MemoryCache) (size : ℕ) : Prop :=
  ∀ i : Fin maxCacheIndex, (i : ℕ) = getIndex size → (mc.cacheHeaders i).items = []

theorem CacheBooks.find {size : ℕ} (h : CacheBooks mc) (hmiss : Misses mc size) (now : ℕ) :
    (memoryCacheFind mc size now).1 = none ∧ CacheBooks (memoryCacheFind mc size now).2 := by
  unfold memoryCacheFind
  split
  · rename_i hindex
    have hempty := hmiss ⟨getIndex size, hindex⟩ rfl
    simp only
    split
    · exact ⟨rfl, h.setHeader rfl (h.borrowed _)⟩
    · rename_i a as hitems
      rw [hempty] at hitems
      cases hitems
  · exact ⟨rfl, h⟩

def Vacant (mc : MemoryCache) : Prop := ∀ i, (mc.cacheHeaders i).items = []

theorem Vacant.bucketsSize_eq (h : Vacant mc) : bucketsSize mc = 0 :=
  Finset.sum_eq_zero fun i _ => by rw [h i, List.length_nil, Nat.zero_mul]

theorem Vacant.resetHeaders_eq (clock : Fin maxCacheIndex → ℕ) (is : List (Fin maxCacheIndex))
    (h : Vacant mc) (hborrowed : ∀ i, (mc.cacheHeaders i).nCaches.borrowed = false) :
    ∃ mc', resetHeaders clock is m mc = some (m, mc') ∧ Vacant mc' ∧
      mc'.curCacheSize = mc.curCacheSize ∧ mc'.maxCacheSize = mc.maxCacheSize ∧
      ∀ i, (mc'.cacheHeaders i).nCaches.borrowed = false := by
  induction is generalizing mc with
  | nil => exact ⟨mc, rfl, h, rfl, rfl, hborrowed⟩
  | cons i is ih =>
    have hvacant :
        Vacant (mc.setHeader i ⟨0, 0, (mc.cacheHeaders i).nCaches.reset, clock i, []⟩) := by
      intro j
      rcases eq_or_ne j i with rfl | hj
      · rw [setHeader_self]
      · rw [setHeader_of_ne hj]
        exact h j
    obtain ⟨mc', hreset, hvacant', hcur, hmax, hborrowed'⟩ := ih hvacant (by
      intro j
      rcases eq_or_ne j i with rfl | hj
      · rw [setHeader_self]
        exact hborrowed j
      · rw [setHeader_of_ne hj]
        exact hborrowed j)
    refine ⟨mc', ?_, hvacant', hcur, hmax, hborrowed'⟩
    rw [resetHeaders, h i]
    exact hreset

theorem CacheBooks.reset (h : CacheBooks mc) (hvacant : Vacant mc) (clock : Fin maxCacheIndex → ℕ) :
    ∃ mc', memoryCacheReset m mc clock = some (m, mc') ∧ CacheBooks mc' ∧ Vacant mc' := by
  obtain ⟨mc', hreset, hvacant', hcur, hmax, hborrowed⟩ :=
    @Vacant.resetHeaders_eq m { mc with curCacheSize := 0 } clock
      (List.finRange maxCacheIndex) hvacant h.borrowed
  refine ⟨mc', hreset, ⟨?_, ?_, ?_, hborrowed⟩, hvacant'⟩
  · rw [hcur, hvacant'.bucketsSize_eq]
  · rw [hcur]
    exact Nat.zero_le _
  · rw [hmax]
    exact h.large

theorem CacheBooks.insert {b : Block} (h : CacheBooks mc) (hfirst : b.item.fromCache = false)
    (hpow : ∃ k, b.item.rsize = 2 ^ k)
    (hmax : getIndex b.item.rsize < maxCacheIndex →
      mc.curCacheSize + b.item.rsize ≤ mc.maxCacheSize)
    (hword : mc.curCacheSize + b.item.rsize < 2 ^ 64) (now : ℕ) :
    CacheBooks (memoryCacheInsert mc b now).2 := by
  unfold memoryCacheInsert
  split
  · rename_i hindex
    simp only [hfirst]
    split
    · have hpush : ∀ ch : CacheHeader,
          ch.items = b.addr :: (mc.cacheHeaders ⟨getIndex b.item.rsize, hindex⟩).items →
          bucketsSize (mc.setHeader ⟨getIndex b.item.rsize, hindex⟩ ch) =
            bucketsSize mc + b.item.rsize := by
        intro ch hch
        have hsum := @bucketsSize_setHeader mc ⟨getIndex b.item.rsize, hindex⟩ ch
        rw [hch, List.length_cons, Nat.succ_mul, pow_getIndex hpow hindex] at hsum
        omega
      refine ⟨?_, ?_, h.large, fun j => ?_⟩
      · change add 64 mc.curCacheSize b.item.rsize =
          bucketsSize (mc.setHeader ⟨getIndex b.item.rsize, hindex⟩ _)
        rw [Word.add_of_lt hword, h.cur]
        exact (hpush _ rfl).symm
      · change add 64 mc.curCacheSize b.item.rsize ≤ mc.maxCacheSize
        rw [Word.add_of_lt hword]
        exact hmax hindex
      · rcases eq_or_ne j ⟨getIndex b.item.rsize, hindex⟩ with rfl | hj
        · simp only [Bool.false_eq_true, if_false, setHeader_self]
          exact h.borrowed _
        · simp only [Bool.false_eq_true, if_false, setHeader_of_ne hj]
          exact h.borrowed j
    · exact h
  · exact h

/-- An operation that takes nothing out of the cache: a request whose bucket is empty, a block that
is freed when it is below the limit or the cache is empty, and a reset of an empty cache. -/
def Quiet (w : World) : MemOp → Prop
  | .alloc size _ _ =>
    itemSize ≤ realSize size ∧ ∀ mc, w.mem.mcache = some mc → Misses mc (realSize size)
  | .free a _ _ =>
    ∀ mc, w.mem.mcache = some mc → ∀ b, blockAt w.mem a = some b →
      mc.maxCacheSize < add 64 mc.curCacheSize b.item.rsize → Vacant mc
  | .reset _ => ∀ mc, w.mem.mcache = some mc → Vacant mc

instance (mc : MemoryCache) (size : ℕ) : Decidable (Misses mc size) :=
  inferInstanceAs (Decidable (∀ _ : Fin maxCacheIndex, _ → _))

instance (mc : MemoryCache) : Decidable (Vacant mc) := inferInstanceAs (Decidable (∀ _, _))

instance (w : World) : (op : MemOp) → Decidable (Quiet w op)
  | .alloc size _ _ =>
    inferInstanceAs (Decidable (itemSize ≤ realSize size ∧
      ∀ mc ∈ w.mem.mcache, Misses mc (realSize size)))
  | .free a _ _ =>
    inferInstanceAs (Decidable (∀ mc ∈ w.mem.mcache, ∀ b ∈ blockAt w.mem a,
      mc.maxCacheSize < add 64 mc.curCacheSize b.item.rsize → Vacant mc))
  | .reset _ => inferInstanceAs (Decidable (∀ mc ∈ w.mem.mcache, Vacant mc))

theorem Quiet.hasRoom {op : MemOp} (h : Quiet w op) : HasRoom op := by
  cases op with
  | alloc size now g => exact h.1
  | free a clock now => trivial
  | reset clock => trivial

theorem Books.alloc {size rsize now : ℕ} {g : Grant} {r : Option ℕ} {m' : Memory} (h : Books m)
    (hmiss : ∀ mc, m.mcache = some mc → Misses mc rsize)
    (halloc : allocRounded m size rsize now g = some (r, m')) (hok : BlocksOk m'.blocks) :
      Books m' := by
  cases hmcache : m.mcache with
  | none =>
    rw [allocRounded, hmcache] at halloc
    exact h.systemAlloc halloc hok
  | some mc =>
    obtain ⟨hnone, hfind⟩ := (h.cache mc hmcache).find (hmiss mc hmcache) now
    rw [allocRounded_of_miss hmcache hnone] at halloc
    exact (h.setCache hfind).systemAlloc halloc hok

theorem Books.free {now : ℕ} {clock : Fin maxCacheIndex → ℕ} {m' : Memory} (h : Books m)
    (hok : BlocksOk m.blocks) (hcached : CachedOk m held) (ha : a ∈ held)
    (hquiet : ∀ mc, m.mcache = some mc → ∀ b, blockAt m a = some b →
      mc.maxCacheSize < add 64 mc.curCacheSize b.item.rsize → Vacant mc)
    (hfree : memoryFree m a clock now = some m') : Books m' := by
  unfold memoryFree at hfree
  split at hfree
  · cases hfree
  rename_i b hb
  have hmem := Keyed.mem_of_lookup hb
  have haddr := Keyed.key_of_lookup hb
  have hrsize := hok.rsize b hmem
  have hbytes : bytesAt m.blocks a = some b.item.rsize := by
    rw [bytesAt, show Keyed.lookup Block.addr m.blocks a = some b from hb, hrsize]
    rfl
  rw [if_pos (hok.protect b hmem)] at hfree
  split at hfree
  · exact h.giveBack hok hb (hrsize ▸ hfree)
  rename_i mc hmcache
  have hcache := h.cache mc hmcache
  have hle := (hcached mc hmcache).bucketsSize_add_le hok ha hbytes
  have hword : mc.curCacheSize + b.item.rsize < 2 ^ 64 := by
    rw [hcache.cur]
    exact lt_of_le_of_lt hle hok.totalSize_lt
  obtain ⟨mc₁, hreset, hinsert⟩ :
      ∃ mc₁, (if mc.maxCacheSize < add 64 mc.curCacheSize b.item.rsize then
          memoryCacheReset m mc clock else some (m, mc)) = some (m, mc₁) ∧
        CacheBooks (memoryCacheInsert mc₁ b now).2 := by
    have hpow : ∃ k, b.item.rsize = 2 ^ k := hrsize ▸ hok.pow b hmem
    split
    · rename_i hfull
      obtain ⟨mc₁, hreset, hcache₁, hvacant₁⟩ := hcache.reset (hquiet mc hmcache b hb hfull) clock
      have hcur₁ : mc₁.curCacheSize = 0 := hcache₁.cur.trans hvacant₁.bucketsSize_eq
      refine ⟨mc₁, hreset, hcache₁.insert (h.first b hmem) hpow (fun hindex => ?_) (by omega) now⟩
      have hsmall : b.item.rsize ≤ maxCacheSizeD := by
        rw [← pow_getIndex hpow hindex]
        exact (Nat.pow_le_pow_right (by omega) (Nat.lt_succ_iff.1 hindex)).trans (by decide)
      rw [hcur₁, Nat.zero_add]
      exact hsmall.trans hcache₁.large
    · rename_i hfull
      rw [Word.add_of_lt hword] at hfull
      exact ⟨mc, rfl, hcache.insert (h.first b hmem) hpow (fun _ => not_lt.1 hfull) hword now⟩
  rw [memoryCacheUpdate] at hfree
  simp only [hreset, Option.map_some] at hfree
  generalize memoryCacheInsert mc₁ b now = kept at hinsert hfree
  obtain ⟨answer, mc₂⟩ := kept
  cases answer with
  | true =>
    cases hfree
    exact h.setCache hinsert
  | false => exact (h.setCache hinsert).giveBack hok hb (hrsize ▸ hfree)

theorem Books.step {op : MemOp} {w' : World} (h : Books w.mem) (hinv : Inv w) (hinv' : Inv w')
    (hallows : w.Allows op) (hquiet : Quiet w op) (hstep : w.step op = some w') : Books w'.mem := by
  cases op with
  | alloc size now g =>
    obtain ⟨⟨r, m'⟩, halloc, rfl⟩ := Option.map_eq_some_iff.1 hstep
    cases r with
    | none => exact h.alloc hquiet.2 halloc hinv'.blocks
    | some a => exact h.alloc hquiet.2 halloc hinv'.blocks
  | free a clock now =>
    obtain ⟨m', hfree, rfl⟩ := Option.map_eq_some_iff.1 hstep
    exact h.free hinv.blocks hinv.cached hallows hquiet hfree
  | reset clock =>
    simp only [World.step] at hstep
    split at hstep
    · cases hstep
      exact h
    · rename_i mc hmcache
      obtain ⟨mc', hreset, hcache', -⟩ :=
        (h.cache mc hmcache).reset (m := w.mem) (hquiet mc hmcache) clock
      simp only [hreset, Option.map_some] at hstep
      cases hstep
      exact h.setCache hcache'

theorem books_create (maxCacheSize timeout : ℕ) (clock : Fin maxCacheIndex → ℕ) :
    Books (World.create maxCacheSize timeout clock).mem where
  use := rfl
  sys := rfl
  dpdk := rfl
  cache := by
    intro mc hmc
    simp only [World.create, memoryCreate] at hmc
    split at hmc
    · cases hmc
      refine ⟨?_, Nat.zero_le _, ?_, fun _ => rfl⟩
      · rw [Vacant.bucketsSize_eq fun _ => rfl]
        rfl
      · simp only [memoryCacheCreate]
        split
        · exact le_rfl
        · omega
    · cases hmc
  first := List.forall_mem_nil _

/-- Every counter says what it is the sum of, and nothing was ever taken from less. -/
structure Accounted (m : Memory) : Prop where
  use : m.useSize = ⟨totalSize m.blocks, false⟩
  sys : m.useSysSize = ⟨sizeFrom .sys m.blocks, false⟩
  dpdk : m.useDpdkSize = ⟨sizeFrom .dpdk m.blocks, false⟩
  cache : ∀ mc, m.mcache = some mc → mc.curCacheSize = cachedSize m.blocks mc ∧
    mc.curCacheSize ≤ mc.maxCacheSize ∧ ∀ i, (mc.cacheHeaders i).nCaches.borrowed = false

theorem Books.accounted (h : Books w.mem) (hinv : Inv w) : Accounted w.mem where
  use := h.use
  sys := h.sys
  dpdk := h.dpdk
  cache mc hmc := by
    have hcache := h.cache mc hmc
    exact ⟨hcache.cur.trans (hinv.cached mc hmc).cachedSize_eq.symm, hcache.max, hcache.borrowed⟩

/-- The counters are exact in every run that takes nothing out of the cache. -/
theorem counters_exact (maxCacheSize timeout : ℕ) (clock : Fin maxCacheIndex → ℕ) (ops : List MemOp)
    (h : Follows World.step (fun w op => w.Allows op ∧ Quiet w op)
      (World.create maxCacheSize timeout clock) ops) :
    ∃ w, runFrom World.step (World.create maxCacheSize timeout clock) ops = some w ∧
      Accounted w.mem := by
  obtain ⟨w, hrun, hinv, hbooks⟩ := h.run (fun w => Inv w ∧ Books w.mem)
    (fun {w op} hw hop => by
      obtain ⟨w', hstep, hinv', -⟩ := hw.1.step hop.1 hop.2.hasRoom
      exact ⟨w', hstep, hinv', hw.2.step hw.1 hinv' hop.1 hop.2 hstep⟩)
    ⟨inv_create maxCacheSize timeout clock, books_create maxCacheSize timeout clock⟩
  exact ⟨w, hrun, hbooks.accounted hinv⟩

def twoBlocks : List MemOp :=
  [.alloc 100 0 ⟨some 4096, none⟩, .alloc 300 0 ⟨none, some 8192⟩, .free 4096 (fun _ => 0) 0]

theorem twoBlocks_counters_exact :
    Follows World.step (fun w op => w.Allows op ∧ Quiet w op) (World.create 1 0 fun _ =>
      0) twoBlocks ∧
      ∃ w, runFrom World.step (World.create 1 0 fun _ => 0) twoBlocks = some w ∧
        Accounted w.mem := by
  have h : Follows World.step (fun w op => w.Allows op ∧ Quiet w op) (World.create 1 0 fun _ => 0)
      twoBlocks := by
    decide +kernel
  exact ⟨h, counters_exact 1 0 (fun _ => 0) twoBlocks h⟩

def resetBlock : List MemOp :=
  [.alloc 100 0 ⟨some 4096, none⟩, .free 4096 (fun _ => 0) 0, .reset fun _ => 0]

theorem resetBlock_not_accounted :
    ¬ ∀ maxCacheSize timeout clock ops,
      Follows World.step (fun w op => w.Allows op ∧ Fits op)
          (World.create maxCacheSize timeout clock) ops →
        ∃ w, runFrom World.step (World.create maxCacheSize timeout clock) ops = some w ∧
          Accounted w.mem := by
  intro hclaim
  obtain ⟨w, hrun, hok⟩ := hclaim 1 0 (fun _ => 0) resetBlock (by decide +kernel)
  have hend : (runFrom World.step (World.create 1 0 fun _ => 0) resetBlock).map
      (fun w => (w.mem.useSize, totalSize w.mem.blocks)) = some (⟨156, false⟩, 0) := by
    decide +kernel
  rw [hrun] at hend
  obtain ⟨huse, htotal⟩ := Prod.mk.inj (Option.some.inj hend)
  have heq := hok.use
  rw [huse, htotal] at heq
  cases heq

end CloudHands.Mem
