import CloudHands.Mem.Memory

/-!
# What the blocks can hold

The size of a block is a power of two, which is also its place in the cache. Every block in the
cache is in the bucket of its size and in nobody's hands, so that a request is answered with a
block of the size that is computed for it. This size covers the request unless the addition of the
item, or the rounding, wraps.
-/

namespace CloudHands.Mem

open Lib
open CloudHands.Word (add sub)

theorem align64pow2_eq {v : ℕ} (h : 0 < v) (hv : v < 2 ^ 64) :
    align64pow2 v = 2 ^ (v - 1).size % 2 ^ 64 := by
  have hsub : sub 64 v 1 = v - 1 := Word.sub_of_le hv h
  rw [align64pow2, hsub, smear64_eq (by omega), add, Nat.sub_add_cancel (Nat.one_le_two_pow)]

theorem align64pow2_pow {v : ℕ} (hv : v < 2 ^ 64) (hpos : 0 < align64pow2 v) :
    ∃ k, align64pow2 v = 2 ^ k := by
  have hzero : align64pow2 0 = 0 := by decide +kernel
  have hv0 : 0 < v := by
    rcases Nat.eq_zero_or_pos v with rfl | h
    · omega
    · exact h
  rw [align64pow2_eq hv0 hv] at hpos ⊢
  have hle : (v - 1).size ≤ 64 := Nat.size_le.2 (by omega)
  rcases hle.lt_or_eq with hlt | heq
  · exact ⟨(v - 1).size, Nat.mod_eq_of_lt (Nat.pow_lt_pow_right (by omega) hlt)⟩
  · rw [heq, Nat.mod_self] at hpos
    omega

theorem le_align64pow2 {v : ℕ} (h : 0 < v) (hv : v ≤ 2 ^ 63) : v ≤ align64pow2 v := by
  have hsize : (v - 1).size ≤ 63 := Nat.size_le.2 (by omega)
  have hpow : 2 ^ (v - 1).size ≤ 2 ^ 63 := Nat.pow_le_pow_right (by omega) hsize
  rw [align64pow2_eq h (by omega), Nat.mod_eq_of_lt (by omega)]
  have hlt := Nat.lt_size_self (v - 1)
  omega

theorem realSize_pow {n : ℕ} (h : itemSize ≤ realSize n) : ∃ k, realSize n = 2 ^ k := by
  have hpos : 0 < itemSize := by decide
  unfold realSize at h ⊢
  exact align64pow2_pow (Nat.mod_lt _ (by positivity)) (by omega)

theorem le_realSize {n : ℕ} (h : n + itemSize ≤ 2 ^ 63) : n + itemSize ≤ realSize n := by
  have hpos : 0 < itemSize := by decide
  rw [realSize, Word.add_of_lt (by omega)]
  exact le_align64pow2 (by omega) h

theorem getIndexFrom_spec (size : ℕ) : ∀ left i,
    (getIndexFrom size left i < i + left → size ≤ 2 ^ getIndexFrom size left i) ∧
      i ≤ getIndexFrom size left i ∧ ∀ j, i ≤ j → j < getIndexFrom size left i → 2 ^ j < size := by
  intro left
  induction left with
  | zero =>
    intro i
    refine ⟨fun h => absurd h (lt_irrefl _), le_rfl, fun j hij hji => ?_⟩
    exact absurd hij (not_le.2 hji)
  | succ left ih =>
    intro i
    rw [getIndexFrom]
    split
    · rename_i hlt
      obtain ⟨hsize, hle, hbelow⟩ := ih (i + 1)
      refine ⟨fun h => hsize (by omega), by omega, fun j hij hji => ?_⟩
      rcases hij.eq_or_lt with rfl | hij
      · exact hlt
      · exact hbelow j hij hji
    · rename_i hlt
      exact ⟨fun _ => not_lt.1 hlt, le_rfl, fun j hij hji => absurd hij (not_le.2 hji)⟩

theorem getIndex_spec (size : ℕ) :
    (getIndex size < maxCacheIndex → size ≤ 2 ^ getIndex size) ∧
      ∀ j, j < getIndex size → 2 ^ j < size := by
  unfold getIndex
  obtain ⟨hsize, -, hbelow⟩ := getIndexFrom_spec size (maxCachePow + 1) 0
  rw [Nat.zero_add] at hsize
  exact ⟨hsize, fun j hj => hbelow j (Nat.zero_le j) hj⟩

theorem pow_getIndex {size : ℕ} (hpow : ∃ k, size = 2 ^ k) (h : getIndex size < maxCacheIndex) :
    2 ^ getIndex size = size := by
  obtain ⟨k, rfl⟩ := hpow
  obtain ⟨hsize, hbelow⟩ := getIndex_spec (2 ^ k)
  have hle : k ≤ getIndex (2 ^ k) := (Nat.pow_le_pow_iff_right Nat.one_lt_two).1 (hsize h)
  rcases hle.lt_or_eq with hlt | heq
  · exact absurd (hbelow k hlt) (lt_irrefl _)
  · rw [← heq]

def bytesAt (blocks : List Block) (a : ℕ) : Option ℕ :=
  (Keyed.lookup Block.addr blocks a).map Block.bytes

structure BlocksOk (blocks : List Block) : Prop where
  apart : (blocks.map Block.extent).Pairwise Extent.Apart
  within : ∀ b ∈ blocks, b.extent.Within 1 (2 ^ 64)
  protect : ∀ b ∈ blocks, b.item.mProtect = mProtectV
  rsize : ∀ b ∈ blocks, b.item.rsize = b.bytes
  room : ∀ b ∈ blocks, itemSize ≤ b.bytes
  pow : ∀ b ∈ blocks, ∃ k, b.bytes = 2 ^ k

/-- Bucket `i` has blocks of size `2 ^ i`, none of them twice and none that is held. -/
structure CacheOk (blocks : List Block) (held : List ℕ) (mc : MemoryCache) : Prop where
  nodup : ∀ i, (mc.cacheHeaders i).items.Nodup
  bytes : ∀ i, ∀ a ∈ (mc.cacheHeaders i).items, bytesAt blocks a = some (2 ^ (i : ℕ))
  apart : ∀ i, ∀ a ∈ (mc.cacheHeaders i).items, a ∉ held

variable {blocks blocks' : List Block} {held : List ℕ} {mc : MemoryCache} {m : Memory} {a : ℕ}

theorem BlocksOk.nodup (h : BlocksOk blocks) : (blocks.map Block.addr).Nodup := by
  have hpair := List.pairwise_map.1 h.apart
  rw [List.Nodup, List.pairwise_map]
  refine hpair.imp_of_mem fun hx hy hapart => ?_
  have hitem : 0 < itemSize := by decide
  exact hapart.start_ne (lt_of_lt_of_le hitem (h.room _ hx)) (lt_of_lt_of_le hitem (h.room _ hy))

theorem BlocksOk.sublist (h : BlocksOk blocks) (hsub : blocks'.Sublist blocks) :
    BlocksOk blocks' where
  apart := h.apart.sublist (hsub.map _)
  within b hb := h.within b (hsub.subset hb)
  protect b hb := h.protect b (hsub.subset hb)
  rsize b hb := h.rsize b (hsub.subset hb)
  room b hb := h.room b (hsub.subset hb)
  pow b hb := h.pow b (hsub.subset hb)

theorem bytesAt_eq_some {n : ℕ} (h : bytesAt blocks a = some n) :
    ∃ b, Keyed.lookup Block.addr blocks a = some b ∧ b ∈ blocks ∧ b.addr = a ∧ b.bytes = n := by
  obtain ⟨b, hb, hn⟩ := Option.map_eq_some_iff.1 h
  exact ⟨b, hb, Keyed.mem_of_lookup hb, Keyed.key_of_lookup hb, hn⟩

theorem bytesAt_remove_of_ne {a' : ℕ} (h : a' ≠ a) :
    bytesAt (Keyed.remove Block.addr blocks a) a' = bytesAt blocks a' := by
  rw [bytesAt, Keyed.lookup_remove_of_ne h]
  rfl

theorem bytesAt_cons_of_ne {b : Block} {a' : ℕ} (h : b.addr ≠ a') :
    bytesAt (b :: blocks) a' = bytesAt blocks a' := by
  rw [bytesAt, Keyed.lookup_cons_of_ne h]
  rfl

theorem bytesAt_modify {f : Block → Block} (haddr : ∀ b, (f b).addr = b.addr)
    (hbytes : ∀ b, (f b).bytes = b.bytes) (a' : ℕ) :
    bytesAt (Keyed.modify Block.addr blocks a f) a' = bytesAt blocks a' := by
  rw [bytesAt, Keyed.lookup_modify haddr, Option.map_map]
  refine Option.map_congr fun b _ => ?_
  simp only [Function.comp_apply]
  split
  · exact hbytes b
  · rfl

theorem CacheOk.congr (h : CacheOk blocks held mc)
    (hbytes : ∀ i, ∀ a ∈ (mc.cacheHeaders i).items, bytesAt blocks' a = bytesAt blocks a) :
    CacheOk blocks' held mc where
  nodup := h.nodup
  bytes i a ha := (hbytes i a ha).trans (h.bytes i a ha)
  apart := h.apart

theorem CacheOk.bucket_unique (h : CacheOk blocks held mc) {i j : Fin maxCacheIndex}
    (hi : a ∈ (mc.cacheHeaders i).items) (hj : a ∈ (mc.cacheHeaders j).items) : i = j := by
  have heq := Option.some.inj ((h.bytes i a hi).symm.trans (h.bytes j a hj))
  exact Fin.ext (Nat.pow_right_injective le_rfl heq)

@[simp] theorem setHeader_self (i : Fin maxCacheIndex) (ch : CacheHeader) :
    (mc.setHeader i ch).cacheHeaders i = ch := Function.update_self _ _ _

theorem setHeader_of_ne {i j : Fin maxCacheIndex} (h : j ≠ i) (ch : CacheHeader) :
    (mc.setHeader i ch).cacheHeaders j = mc.cacheHeaders j := Function.update_of_ne h _ _

theorem CacheOk.setHeader (h : CacheOk blocks held mc) {i : Fin maxCacheIndex} (ch : CacheHeader)
    (hnodup : ch.items.Nodup) (hbytes : ∀ a ∈ ch.items, bytesAt blocks a = some (2 ^ (i : ℕ)))
    (hapart : ∀ a ∈ ch.items, a ∉ held) : CacheOk blocks held (mc.setHeader i ch) := by
  constructor <;> intro j <;> rcases eq_or_ne j i with rfl | hj
  · rwa [setHeader_self]
  · rw [setHeader_of_ne hj]
    exact h.nodup j
  · rwa [setHeader_self]
  · rw [setHeader_of_ne hj]
    exact h.bytes j
  · rwa [setHeader_self]
  · rw [setHeader_of_ne hj]
    exact h.apart j

theorem giveBack_eq {b : Block} (hb : blockAt m a = some b) (rsize : ℕ) :
    ∃ m', giveBack m a rsize = some m' ∧ m'.blocks = Keyed.remove Block.addr m.blocks a ∧
      m'.mcache = m.mcache := by
  rw [giveBack, hb]
  exact ⟨_, rfl, rfl, rfl⟩

theorem memoryItemsFree_eq (as : List ℕ) (hok : BlocksOk m.blocks) (hnodup : as.Nodup)
    (has : ∀ a ∈ as, ∃ n, bytesAt m.blocks a = some n) :
    ∃ m', memoryItemsFree m as = some m' ∧ m'.mcache = m.mcache ∧ BlocksOk m'.blocks ∧
      ∀ a, a ∉ as → bytesAt m'.blocks a = bytesAt m.blocks a := by
  induction as generalizing m with
  | nil => exact ⟨m, rfl, rfl, hok, fun _ _ => rfl⟩
  | cons a as ih =>
    obtain ⟨hfresh, hnodup⟩ := List.nodup_cons.1 hnodup
    obtain ⟨⟨n, hn⟩, has⟩ := List.forall_mem_cons.1 has
    obtain ⟨b, hb, hmem, -, -⟩ := bytesAt_eq_some hn
    obtain ⟨m₁, hgive, hblocks, hmcache⟩ := giveBack_eq hb b.item.size
    have hok₁ : BlocksOk m₁.blocks := by
      rw [hblocks]
      exact hok.sublist Keyed.sublist_remove
    have hframe : ∀ a', a' ≠ a → bytesAt m₁.blocks a' = bytesAt m.blocks a' := by
      intro a' hne
      rw [hblocks]
      exact bytesAt_remove_of_ne hne
    have has₁ : ∀ a' ∈ as, ∃ n, bytesAt m₁.blocks a' = some n := by
      intro a' ha'
      rw [hframe a' (ne_of_mem_of_not_mem ha' hfresh)]
      exact has a' ha'
    obtain ⟨m', hfree, hmcache', hok', hframe'⟩ := ih hok₁ hnodup has₁
    refine ⟨m', ?_, hmcache'.trans hmcache, hok', fun a' ha' => ?_⟩
    · have hitem : memoryItemFree m a = some m₁ := by
        rw [memoryItemFree, show blockAt m a = some b from hb]
        exact (if_pos (hok.protect b hmem)).trans hgive
      rw [memoryItemsFree, hitem]
      exact hfree
    · obtain ⟨hne, hnot⟩ := not_or.1 (mt List.mem_cons.2 ha')
      exact (hframe' a' hnot).trans (hframe a' hne)

theorem resetHeaders_eq (clock : Fin maxCacheIndex → ℕ) (is : List (Fin maxCacheIndex))
    (hok : BlocksOk m.blocks) (hcache : CacheOk m.blocks held mc) :
    ∃ m' mc', resetHeaders clock is m mc = some (m', mc') ∧ BlocksOk m'.blocks ∧
      CacheOk m'.blocks held mc' ∧ m'.mcache = m.mcache ∧
      ∀ a ∈ held, bytesAt m'.blocks a = bytesAt m.blocks a := by
  induction is generalizing m mc with
  | nil => exact ⟨m, mc, rfl, hok, hcache, rfl, fun _ _ => rfl⟩
  | cons i is ih =>
    obtain ⟨m₁, hfree, hmcache, hok₁, hframe⟩ := memoryItemsFree_eq (mc.cacheHeaders i).items hok
      (hcache.nodup i) (fun a ha => ⟨_, hcache.bytes i a ha⟩)
    have hcache₁ : CacheOk m₁.blocks held
        (mc.setHeader i ⟨0, 0, (mc.cacheHeaders i).nCaches.reset, clock i, []⟩) := by
      have hempty := hcache.setHeader (i := i)
        (⟨0, 0, (mc.cacheHeaders i).nCaches.reset, clock i, []⟩) List.nodup_nil
        (List.forall_mem_nil _) (List.forall_mem_nil _)
      refine hempty.congr fun j a ha => hframe a fun hi => ?_
      rcases eq_or_ne j i with rfl | hj
      · rw [setHeader_self] at ha
        cases ha
      · rw [setHeader_of_ne hj] at ha
        exact hj (hcache.bucket_unique ha hi)
    obtain ⟨m', mc', hreset, hok', hcache', hmcache', hframe'⟩ := ih hok₁ hcache₁
    refine ⟨m', mc', ?_, hok', hcache', hmcache'.trans hmcache, fun a ha => ?_⟩
    · rw [resetHeaders, hfree]
      exact hreset
    · exact (hframe' a ha).trans (hframe a fun hi => hcache.apart i a hi ha)

theorem memoryCacheReset_eq (clock : Fin maxCacheIndex → ℕ) (hok : BlocksOk m.blocks)
    (hcache : CacheOk m.blocks held mc) :
    ∃ m' mc', memoryCacheReset m mc clock = some (m', mc') ∧ BlocksOk m'.blocks ∧
      CacheOk m'.blocks held mc' ∧ m'.mcache = m.mcache ∧
      ∀ a ∈ held, bytesAt m'.blocks a = bytesAt m.blocks a :=
  resetHeaders_eq clock _ hok ⟨hcache.nodup, hcache.bytes, hcache.apart⟩

theorem memoryCacheFind_eq {size : ℕ} (hcache : CacheOk blocks held mc) (hpow : ∃ k, size = 2 ^ k)
    (now : ℕ) :
    ((memoryCacheFind mc size now).1 = none ∧
        CacheOk blocks held (memoryCacheFind mc size now).2) ∨
      ∃ a, (memoryCacheFind mc size now).1 = some a ∧ bytesAt blocks a = some size ∧
        a ∉ held ∧ CacheOk blocks (a :: held) (memoryCacheFind mc size now).2 := by
  unfold memoryCacheFind
  split
  · rename_i h
    simp only
    split
    · rename_i hitems
      have hheader := hcache.setHeader (i := ⟨getIndex size, h⟩)
        ({ mc.cacheHeaders ⟨getIndex size, h⟩ with
          lastFindTime := now, nNohits := add 64 (mc.cacheHeaders ⟨getIndex size, h⟩).nNohits 1 })
        (hcache.nodup _) (hcache.bytes _) (hcache.apart _)
      exact .inl ⟨rfl, hheader⟩
    · rename_i a as hitems
      have hmem : ∀ a' ∈ a :: as, a' ∈ (mc.cacheHeaders ⟨getIndex size, h⟩).items := by
        intro a' ha'
        exact hitems ▸ ha'
      have hnodup : (a :: as).Nodup := by
        have hall := hcache.nodup ⟨getIndex size, h⟩
        exact hitems ▸ hall
      obtain ⟨hfresh, hnodup⟩ := List.nodup_cons.1 hnodup
      have hfront := hmem a List.mem_cons_self
      refine .inr ⟨a, rfl, ?_, hcache.apart _ a hfront, ?_⟩
      · rw [hcache.bytes _ a hfront, pow_getIndex hpow h]
      have hrest := hcache.setHeader (i := ⟨getIndex size, h⟩)
        ({ mc.cacheHeaders ⟨getIndex size, h⟩ with
          lastFindTime := now
          items := as
          nHits := add 64 (mc.cacheHeaders ⟨getIndex size, h⟩).nHits 1
          nCaches := (mc.cacheHeaders ⟨getIndex size, h⟩).nCaches.minus 1 })
        hnodup (fun a' ha' => hcache.bytes _ a' (hmem a' (List.mem_cons_of_mem a ha')))
        (fun a' ha' => hcache.apart _ a' (hmem a' (List.mem_cons_of_mem a ha')))
      refine ⟨hrest.nodup, hrest.bytes, fun j a' ha' => ?_⟩
      refine mt List.mem_cons.1 (not_or.2 ⟨?_, hrest.apart j a' ha'⟩)
      rintro rfl
      rcases eq_or_ne j ⟨getIndex size, h⟩ with rfl | hj
      · rw [setHeader_self] at ha'
        exact hfresh ha'
      · rw [setHeader_of_ne hj] at ha'
        exact hj (hcache.bucket_unique ha' hfront)
  · exact .inl ⟨rfl, hcache⟩

theorem memoryCacheInsert_eq {b : Block} (hcache : CacheOk blocks held mc)
    (hbytes : bytesAt blocks b.addr = some b.item.rsize) (hpow : ∃ k, b.item.rsize = 2 ^ k)
    (hheld : b.addr ∈ held) (now : ℕ) :
    CacheOk blocks held (memoryCacheInsert mc b now).2 ∧ (memoryCacheInsert mc b now).1 = false ∨
      CacheOk blocks (held.filter (· ≠ b.addr)) (memoryCacheInsert mc b now).2 ∧
        (memoryCacheInsert mc b now).1 = true := by
  unfold memoryCacheInsert
  split
  · rename_i h
    simp only
    split
    · right
      have hold : CacheOk blocks (held.filter (· ≠ b.addr)) mc :=
        ⟨hcache.nodup, hcache.bytes,
          fun i a ha => mt (fun hmem => List.mem_of_mem_filter hmem) (hcache.apart i a ha)⟩
      have hnew := hold.setHeader (i := ⟨getIndex b.item.rsize, h⟩)
        ({ mc.cacheHeaders ⟨getIndex b.item.rsize, h⟩ with
          nCaches := (mc.cacheHeaders ⟨getIndex b.item.rsize, h⟩).nCaches.plus 1
          items := b.addr :: (mc.cacheHeaders ⟨getIndex b.item.rsize, h⟩).items })
        (List.nodup_cons.2 ⟨fun hmem => hcache.apart _ _ hmem hheld, hcache.nodup _⟩)
        (List.forall_mem_cons.2 ⟨by rw [hbytes, pow_getIndex hpow h], hcache.bytes _⟩)
        (List.forall_mem_cons.2 ⟨by simp, hold.apart _⟩)
      refine ⟨?_, rfl⟩
      split
      · exact hnew
      · exact ⟨hnew.nodup, hnew.bytes, hnew.apart⟩
    · exact .inl ⟨hcache, rfl⟩
  · exact .inl ⟨hcache, rfl⟩

def CachedOk (m : Memory) (held : List ℕ) : Prop := ∀ mc, m.mcache = some mc →
    CacheOk m.blocks held mc

def Allocated (m : Memory) (held : List ℕ) (rsize : ℕ) (r : Option ℕ) (m' : Memory) : Prop :=
  BlocksOk m'.blocks ∧ (∀ a ∈ held, bytesAt m'.blocks a = bytesAt m.blocks a) ∧
    match r with
    | none => CachedOk m' held
    | some a => a ∉ held ∧ bytesAt m'.blocks a = some rsize ∧ CachedOk m' (a :: held)

theorem BlocksOk.cons {b : Block} (h : BlocksOk blocks)
    (hwithin : b.extent.Within 1 (2 ^ 64)) (hapart : ∀ b' ∈ blocks, b.extent.Apart b'.extent)
    (hprotect : b.item.mProtect = mProtectV) (hrsize : b.item.rsize = b.bytes)
    (hroom : itemSize ≤ b.bytes) (hpow : ∃ k, b.bytes = 2 ^ k) : BlocksOk (b :: blocks) where
  apart := by
    rw [List.map_cons, List.pairwise_cons]
    refine ⟨fun x hx => ?_, h.apart⟩
    obtain ⟨b', hb', rfl⟩ := List.mem_map.1 hx
    exact hapart b' hb'
  within := List.forall_mem_cons.2 ⟨hwithin, h.within⟩
  protect := List.forall_mem_cons.2 ⟨hprotect, h.protect⟩
  rsize := List.forall_mem_cons.2 ⟨hrsize, h.rsize⟩
  room := List.forall_mem_cons.2 ⟨hroom, h.room⟩
  pow := List.forall_mem_cons.2 ⟨hpow, h.pow⟩

theorem ne_of_apart {a' rsize n : ℕ} (hok : BlocksOk blocks) (hroom : itemSize ≤ rsize)
    (hapart : ∀ b ∈ blocks, Extent.Apart ⟨a, rsize⟩ b.extent) (ha' : bytesAt blocks a' = some n) :
    a ≠ a' := by
  obtain ⟨b, -, hmem, rfl, -⟩ := bytesAt_eq_some ha'
  have hitem : 0 < itemSize := by decide
  exact (hapart b hmem).start_ne (lt_of_lt_of_le hitem hroom)
    (lt_of_lt_of_le hitem (hok.room b hmem))

theorem systemAlloc_eq {size rsize : ℕ} {g : Grant} (hok : BlocksOk m.blocks)
    (hcached : CachedOk m held) (hheld : ∀ a ∈ held, ∃ n, bytesAt m.blocks a = some n)
    (hroom : itemSize ≤ rsize) (hpow : ∃ k, rsize = 2 ^ k) (hfresh : g.Fresh m rsize) :
    ∃ r m', systemAlloc m size rsize g = some (r, m') ∧ Allocated m held rsize r m' := by
  unfold systemAlloc
  cases hgrant : g.block with
  | none => exact ⟨none, m, rfl, hok, fun _ _ => rfl, hcached⟩
  | some p =>
    obtain ⟨a, type⟩ := p
    obtain ⟨hwithin, hapart⟩ := hfresh a type hgrant
    have hother : ∀ a' n, bytesAt m.blocks a' = some n →
        bytesAt (⟨a, rsize, ⟨mProtectV, type, false, size, rsize⟩⟩ :: m.blocks) a' =
          bytesAt m.blocks a' :=
      fun a' n ha' => bytesAt_cons_of_ne (ne_of_apart hok hroom hapart ha')
    refine ⟨some a, _, if_neg (not_lt.2 hroom), ?_, ?_, ?_, ?_, ?_⟩
    · exact hok.cons hwithin hapart rfl rfl hroom hpow
    · intro a' ha'
      obtain ⟨n, hn⟩ := hheld a' ha'
      exact hother a' n hn
    · intro ha
      obtain ⟨n, hn⟩ := hheld a ha
      exact ne_of_apart hok hroom hapart hn rfl
    · rw [bytesAt, Keyed.lookup_cons_self]
      rfl
    · intro mc hmc
      have hcache := hcached mc hmc
      refine ⟨hcache.nodup, fun i a' ha' => ?_, fun i a' ha' => ?_⟩
      · rw [hother a' _ (hcache.bytes i a' ha')]
        exact hcache.bytes i a' ha'
      · refine mt List.mem_cons.1 (not_or.2 ⟨?_, hcache.apart i a' ha'⟩)
        exact (ne_of_apart hok hroom hapart (hcache.bytes i a' ha')).symm

theorem BlocksOk.modify {f : Block → Block} (h : BlocksOk blocks)
    (haddr : ∀ b, (f b).addr = b.addr) (hbytes : ∀ b, (f b).bytes = b.bytes)
    (hprotect : ∀ b, (f b).item.mProtect = b.item.mProtect)
    (hrsize : ∀ b ∈ blocks, b.addr = a → (f b).item.rsize = b.bytes) :
    BlocksOk (Keyed.modify Block.addr blocks a f) := by
  have hextent : ∀ b, (f b).extent = b.extent := by
    intro b
    rw [Block.extent, haddr, hbytes]
    rfl
  have hall : ∀ P : Block → Prop, (∀ b ∈ blocks, P b) → (∀ b ∈ blocks, b.addr = a → P (f b)) →
      ∀ b ∈ Keyed.modify Block.addr blocks a f, P b := by
    intro P hP hPf b hb
    obtain ⟨b', hb', rfl⟩ := Keyed.mem_modify hb
    split
    · rename_i ha
      exact hPf b' hb' ha
    · exact hP b' hb'
  constructor
  · rw [Keyed.map_modify Block.extent hextent]
    exact h.apart
  · exact hall _ h.within fun b hb _ => hextent b ▸ h.within b hb
  · exact hall _ h.protect fun b hb _ => (hprotect b).trans (h.protect b hb)
  · exact hall _ h.rsize fun b hb ha => (hrsize b hb ha).trans (hbytes b).symm
  · exact hall _ h.room fun b hb _ => hbytes b ▸ h.room b hb
  · exact hall _ h.pow fun b hb _ => hbytes b ▸ h.pow b hb

theorem reuse_eq {size rsize : ℕ} (hok : BlocksOk m.blocks) (ha : bytesAt m.blocks a = some rsize) :
    ∃ m', reuse m a size rsize = some m' ∧ m'.mcache = m.mcache ∧ BlocksOk m'.blocks ∧
      ∀ a', bytesAt m'.blocks a' = bytesAt m.blocks a' := by
  obtain ⟨b, hb, hmem, haddr, hbytes⟩ := bytesAt_eq_some ha
  rw [reuse, show blockAt m a = some b from hb]
  refine ⟨_, rfl, rfl, hok.modify (fun _ => rfl) (fun _ => rfl) (fun _ => rfl) ?_,
    bytesAt_modify (fun _ => rfl) fun _ => rfl⟩
  intro b' hb' haddr'
  have heq : b' = b := List.inj_on_of_nodup_map hok.nodup hb' hmem (haddr'.trans haddr.symm)
  rw [heq]
  exact hbytes.symm

theorem allocRounded_of_miss {size rsize now : ℕ} (hmcache : m.mcache = some mc)
    (hmiss : (memoryCacheFind mc rsize now).1 = none) (g : Grant) :
    allocRounded m size rsize now g =
      systemAlloc { m with mcache := some (memoryCacheFind mc rsize now).2 } size rsize g := by
  obtain ⟨mc', hfind⟩ : ∃ mc', memoryCacheFind mc rsize now = (none, mc') :=
    ⟨_, Prod.ext hmiss rfl⟩
  simp only [allocRounded, hmcache, hfind]

theorem allocRounded_of_hit {size rsize now : ℕ} (hmcache : m.mcache = some mc)
    (hhit : (memoryCacheFind mc rsize now).1 = some a) (g : Grant) :
    allocRounded m size rsize now g =
      (reuse { m with mcache := some (memoryCacheFind mc rsize now).2 } a size rsize).map
        fun m => (some a, m) := by
  obtain ⟨mc', hfind⟩ : ∃ mc', memoryCacheFind mc rsize now = (some a, mc') :=
    ⟨_, Prod.ext hhit rfl⟩
  simp only [allocRounded, hmcache, hfind]

theorem allocRounded_eq {size rsize : ℕ} {g : Grant} (hok : BlocksOk m.blocks)
    (hcached : CachedOk m held) (hheld : ∀ a ∈ held, ∃ n, bytesAt m.blocks a = some n)
    (hroom : itemSize ≤ rsize) (hpow : ∃ k, rsize = 2 ^ k) (hfresh : g.Fresh m rsize) (now : ℕ) :
    ∃ r m', allocRounded m size rsize now g = some (r, m') ∧ Allocated m held rsize r m' := by
  cases hmcache : m.mcache with
  | none =>
    rw [allocRounded, hmcache]
    exact systemAlloc_eq hok hcached hheld hroom hpow hfresh
  | some mc =>
    rcases memoryCacheFind_eq (hcached mc hmcache) hpow now with
      ⟨hmiss, hcache⟩ | ⟨a, hhit, ha, hnot, hcache⟩
    · rw [allocRounded_of_miss hmcache hmiss]
      refine systemAlloc_eq (m := { m with mcache := some (memoryCacheFind mc rsize now).2 }) hok ?_
        hheld hroom hpow hfresh
      rintro mc' ⟨⟩
      exact hcache
    · obtain ⟨m', hreuse, hmcache', hok', hframe⟩ :=
        @reuse_eq { m with mcache := some (memoryCacheFind mc rsize now).2 } _ size _ hok ha
      rw [allocRounded_of_hit hmcache hhit, hreuse]
      refine ⟨some a, m', rfl, hok', fun a' _ => hframe a', hnot, (hframe a).trans ha, ?_⟩
      intro mc' hmc'
      rw [hmcache'] at hmc'
      cases hmc'
      exact hcache.congr fun _ a' _ => hframe a'

theorem memoryFree_eq (hok : BlocksOk m.blocks) (hcached : CachedOk m held)
    (hheld : ∀ a ∈ held, ∃ n, bytesAt m.blocks a = some n) (ha : a ∈ held)
    (clock : Fin maxCacheIndex → ℕ) (now : ℕ) :
    ∃ m', memoryFree m a clock now = some m' ∧ BlocksOk m'.blocks ∧
      CachedOk m' (held.filter (· ≠ a)) ∧
      ∀ a' ∈ held, a' ≠ a → bytesAt m'.blocks a' = bytesAt m.blocks a' := by
  obtain ⟨n, hn⟩ := hheld a ha
  obtain ⟨b, hb, hmem, haddr, hbytes⟩ := bytesAt_eq_some hn
  have hrsize : b.item.rsize = b.bytes := hok.rsize b hmem
  unfold memoryFree
  rw [show blockAt m a = some b from hb]
  simp only [hok.protect b hmem, if_true]
  cases hmcache : m.mcache with
  | none =>
    obtain ⟨m', hgive, hblocks, hmcache'⟩ := giveBack_eq hb b.item.rsize
    refine ⟨m', hgive, ?_, ?_, ?_⟩
    · rw [hblocks]
      exact hok.sublist Keyed.sublist_remove
    · intro mc' hmc'
      rw [hmcache', hmcache] at hmc'
      cases hmc'
    · intro a' _ hne
      rw [hblocks]
      exact bytesAt_remove_of_ne hne
  | some mc =>
    obtain ⟨m₁, mc₁, hreset, hok₁, hcache₁, hframe₁⟩ :
        ∃ m₁ mc₁, (if mc.maxCacheSize < add 64 mc.curCacheSize b.item.rsize then
            memoryCacheReset m mc clock else some (m, mc)) = some (m₁, mc₁) ∧ BlocksOk m₁.blocks ∧
          CacheOk m₁.blocks held mc₁ ∧ ∀ a' ∈ held, bytesAt m₁.blocks a' = bytesAt m.blocks a' := by
      split
      · obtain ⟨m₁, mc₁, hreset, hok₁, hcache₁, -, hframe₁⟩ :=
          memoryCacheReset_eq clock hok (hcached mc hmcache)
        exact ⟨m₁, mc₁, hreset, hok₁, hcache₁, hframe₁⟩
      · exact ⟨m, mc, rfl, hok, hcached mc hmcache, fun _ _ => rfl⟩
    have hn₁ : bytesAt m₁.blocks b.addr = some b.item.rsize := by
      rw [haddr, hframe₁ a ha, hn, hrsize, hbytes]
    have hpow : ∃ k, b.item.rsize = 2 ^ k := hrsize ▸ hok.pow b hmem
    have hinsert := memoryCacheInsert_eq hcache₁ hn₁ hpow (haddr ▸ ha) now
    simp only [memoryCacheUpdate, hreset, Option.map_some]
    generalize memoryCacheInsert mc₁ b now = kept at hinsert ⊢
    obtain ⟨answer, mc₂⟩ := kept
    rw [haddr] at hinsert
    rcases hinsert with ⟨hcache₂, hanswer⟩ | ⟨hcache₂, hanswer⟩
    · cases hanswer
      obtain ⟨b₁, hb₁, -⟩ := bytesAt_eq_some (haddr ▸ hn₁)
      obtain ⟨m', hgive, hblocks, hmcache'⟩ :=
        giveBack_eq (m := { m₁ with mcache := some mc₂ }) hb₁ b.item.rsize
      refine ⟨m', hgive, ?_, ?_, ?_⟩
      · rw [hblocks]
        exact hok₁.sublist Keyed.sublist_remove
      · intro mc' hmc'
        rw [hmcache'] at hmc'
        cases hmc'
        refine ⟨hcache₂.nodup, fun i a' ha' => ?_, fun i a' ha' => ?_⟩
        · rw [hblocks, bytesAt_remove_of_ne]
          · exact hcache₂.bytes i a' ha'
          · rintro rfl
            exact hcache₂.apart i a' ha' ha
        · exact mt (fun h => List.mem_of_mem_filter h) (hcache₂.apart i a' ha')
      · intro a' ha' hne
        rw [hblocks, bytesAt_remove_of_ne hne]
        exact hframe₁ a' ha'
    · cases hanswer
      refine ⟨_, rfl, hok₁, ?_, fun a' ha' _ => hframe₁ a' ha'⟩
      rintro mc' ⟨⟩
      exact hcache₂

end CloudHands.Mem
