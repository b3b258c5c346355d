import CloudHands.Sa.StorePool

/-!
# No data store is lost, and none is written over its end

A store moves between the free list and those who obtained it. The limit is compared with the number
of stores before one more is allocated, and the loop that allocates in advance does not look at it.
-/

namespace CloudHands.Sa

open Lib
open CloudHands.Word (add sub)

variable {dsp : StorePool} {u : StoreUse}

structure CellOk (dsize : ℕ) (cell : StoreCell) : Prop where
  mark : cell.dsProtect = dsProtectV
  stop : cell.stop = dsize
  pos : cell.pos ≤ dsize

structure StoreInv (u : StoreUse) : Prop where
  frees : u.pool.freeN = u.pool.dstoreFreeList.length
  uses : u.pool.usingN = u.inUse.length
  count : u.pool.allacDstoreN = u.allocated.length
  limit : u.allocated.length ≤ u.pool.dstoreLimits
  bound : u.pool.dstoreLimits < 2 ^ 32
  stores : (u.pool.dstoreFreeList ++ u.inUse).Perm u.allocated
  nodup : u.allocated.Nodup
  cells : ∀ dst ∈ u.allocated, CellOk u.pool.dsize (u.pool.store dst)
  size : u.pool.dsize ≤ maxDsize

theorem StoreInv.length (h : StoreInv u) :
    u.pool.dstoreFreeList.length + u.inUse.length = u.allocated.length := by
  rw [← h.stores.length_eq, List.length_append]

theorem cells_update {dsize : ℕ} {allocated : List ℕ} {store : ℕ → StoreCell} {dst : ℕ}
    {cell : StoreCell}
    (h : ∀ d ∈ allocated, d ≠ dst → CellOk dsize (store d)) (hcell : CellOk dsize cell) :
    ∀ d ∈ allocated, CellOk dsize (Function.update store dst cell d) := by
  intro d hd
  by_cases heq : d = dst
  · rw [heq, Function.update_self]
    exact hcell
  · rw [Function.update_of_ne heq]
    exact h d hd heq

theorem StoreInv.conserved (h : StoreInv u) : u.Conserved where
  count := by rw [h.frees, h.uses, h.length]
  stores := h.stores
  disjoint := h.stores.nodup_iff.2 h.nodup
  limit := h.limit
  empty pcalloc dst dsp hget := by
    unfold storeGet at hget
    split at hget
    · cases hget
    · split at hget
      · split at hget
        · cases hget
        · cases hget
          simp [StorePool.storeSize, StorePool.initStore]
      · split at hget
        · cases hget
        · cases hget
          simp [StorePool.storeSize, StorePool.setPos]
  room dst hdst := by
    have hcell := h.cells dst hdst
    rw [hcell.stop]
    exact hcell.pos

theorem StoreInv.get (h : StoreInv u) {pcalloc : Option ℕ} (hallows : u.Allows (.get pcalloc))
    (hsound : u.Sound (.get pcalloc)) : ∃ u', u.step (.get pcalloc) = some u' ∧ StoreInv u' := by
  have hlength := h.length
  have hlimit := h.limit
  have hbound := h.bound
  have hroom : ¬ (u.pool.dstoreLimits < u.pool.allacDstoreN ∧ u.pool.dstoreFreeList = []) := by
    rintro ⟨hlt, -⟩
    rw [h.count] at hlt
    omega
  cases hfree : u.pool.dstoreFreeList with
  | nil =>
    have hstores := h.stores
    rw [hfree] at hstores hlength
    cases pcalloc with
    | none =>
      refine ⟨u, ?_, h⟩
      simp only [StoreUse.step, storeGet, if_neg hroom]
      simp [hfree]
    | some dst =>
      have hbelow : u.allocated.length < u.pool.dstoreLimits := h.count ▸ hsound hfree nofun
      have hnew : dst ∉ u.allocated := hallows dst rfl
      have husing : add 32 u.pool.usingN 1 = u.inUse.length + 1 := by
        rw [h.uses, Word.add_of_lt (by simp only [List.length_nil] at hlength; omega)]
      have halloc : add 32 u.pool.allacDstoreN 1 = u.allocated.length + 1 := by
        rw [h.count, Word.add_of_lt (by omega)]
      let dsp := u.pool.initStore dst fun _ => 0
      refine ⟨⟨{ dsp with
          usingN := add 32 dsp.usingN 1
          allacDstoreN := add 32 dsp.allacDstoreN 1 }, dst :: u.allocated, dst :: u.inUse⟩, ?_, ?_⟩
      · simp only [StoreUse.step, storeGet, if_neg hroom]
        simp [hfree, dsp]
      · refine ⟨h.frees, husing, halloc, hbelow, hbound, ?_, List.nodup_cons.2 ⟨hnew, h.nodup⟩, ?_,
          h.size⟩
        · change (u.pool.dstoreFreeList ++ dst :: u.inUse).Perm (dst :: u.allocated)
          rw [hfree]
          exact hstores.cons dst
        · refine cells_update (fun d hd hne => ?_) ⟨rfl, rfl, Nat.zero_le _⟩
          exact h.cells d ((List.mem_cons.1 hd).resolve_left hne)
  | cons dst rest =>
    have hstores := h.stores
    rw [hfree] at hstores hlength
    have hdst : dst ∈ u.allocated := hstores.subset List.mem_cons_self
    have hcell := h.cells dst hdst
    have hfrees : u.pool.freeN = rest.length + 1 := by rw [h.frees, hfree, List.length_cons]
    rw [List.length_cons] at hlength
    have hfreeN : sub 32 u.pool.freeN 1 = rest.length := by
      rw [hfrees, Word.sub_of_le (by omega) (by omega), Nat.add_sub_cancel]
    have husing : add 32 u.pool.usingN 1 = u.inUse.length + 1 := by
      rw [h.uses, Word.add_of_lt (by omega)]
    let dsp := u.pool.setPos dst 0
    refine ⟨⟨{ dsp with
        dstoreFreeList := rest
        freeN := sub 32 dsp.freeN 1
        usingN := add 32 dsp.usingN 1 }, u.allocated, dst :: u.inUse⟩, ?_, ?_⟩
    · simp only [StoreUse.step, storeGet, if_neg hroom]
      simp [hfree, hcell.mark, dsp]
    · refine ⟨hfreeN, husing, h.count, hlimit, hbound, ?_, h.nodup, ?_, h.size⟩
      · exact List.perm_middle.trans hstores
      · exact cells_update (fun d hd _ => h.cells d hd) ⟨hcell.mark, hcell.stop, Nat.zero_le _⟩

theorem StoreInv.free (h : StoreInv u) {dst : ℕ} (hheld : dst ∈ u.inUse) :
    ∃ u', u.step (.free dst) = some u' ∧ StoreInv u' := by
  have hdst : dst ∈ u.allocated := h.stores.subset (List.mem_append_right _ hheld)
  have hcell := h.cells dst hdst
  have hlength := h.length
  have hlimit := h.limit
  have hbound := h.bound
  have hperm := List.perm_cons_erase hheld
  have herase := hperm.length_eq
  rw [List.length_cons] at herase
  have hfreeN : add 32 u.pool.freeN 1 = (u.pool.dstoreFreeList ++ [dst]).length := by
    rw [h.frees, Word.add_of_lt (by omega), List.length_append, List.length_singleton]
  have husing : sub 32 u.pool.usingN 1 = (u.inUse.erase dst).length := by
    rw [h.uses, Word.sub_of_le (by omega) (by omega), herase, Nat.add_sub_cancel]
  let dsp := u.pool.setPos dst 0
  refine ⟨⟨{ dsp with
      dstoreFreeList := dsp.dstoreFreeList ++ [dst]
      freeN := add 32 dsp.freeN 1
      usingN := sub 32 dsp.usingN 1 }, u.allocated, u.inUse.erase dst⟩, ?_, ?_⟩
  · simp [StoreUse.step, storeFree, hcell.mark, dsp]
  · refine ⟨hfreeN, husing, h.count, hlimit, hbound, ?_, h.nodup, ?_, h.size⟩
    · change (u.pool.dstoreFreeList ++ [dst] ++ u.inUse.erase dst).Perm u.allocated
      rw [List.append_assoc, List.singleton_append]
      exact (hperm.symm.append_left _).trans h.stores
    · exact cells_update (fun d hd _ => h.cells d hd) ⟨hcell.mark, hcell.stop, Nat.zero_le _⟩

theorem StoreInv.write (h : StoreInv u) {dst : ℕ} (hdst : dst ∈ u.allocated) (data : List UInt8) :
    ∃ u', u.step (.write dst data) = some u' ∧ StoreInv u' := by
  have hcell := h.cells dst hdst
  have hpos := hcell.pos
  have hsize := h.size
  have hmax : maxDsize = 512 := rfl
  have hleft : sub 64 (u.pool.store dst).stop (u.pool.store dst).pos =
      u.pool.dsize - (u.pool.store dst).pos := by
    rw [hcell.stop, Word.sub_of_le (by omega) hpos]
  simp only [StoreUse.step, storeWrite, hcell.mark, ne_eq, not_true_eq_false, if_false, hleft]
  generalize hroom : (if data.length < u.pool.dsize - (u.pool.store dst).pos then data.length
    else u.pool.dsize - (u.pool.store dst).pos) = room
  have hle : room ≤ u.pool.dsize - (u.pool.store dst).pos := by
    rw [← hroom]
    split <;> omega
  split
  · exact ⟨u, rfl, h⟩
  · refine ⟨_, rfl, h.frees, h.uses, h.count, h.limit, h.bound, h.stores, h.nodup, ?_, h.size⟩
    exact cells_update (fun d hd _ => h.cells d hd) ⟨rfl, hcell.stop, by dsimp only; omega⟩

theorem StoreInv.step (h : StoreInv u) {op : StoreOp} (hallows : u.Allows op)
    (hsound : u.Sound op) :
    ∃ u', u.step op = some u' ∧ StoreInv u' := by
  cases op with
  | get pcalloc => exact h.get hallows hsound
  | free dst => exact h.free hallows
  | write dst data => exact h.write hallows data

theorem StoreInv.sound_of_conserved (h : StoreInv u) {op : StoreOp} {u' : StoreUse}
    (hstep : u.step op = some u') (hgood : u'.Conserved) : u.Sound op := by
  cases op with
  | free dst => trivial
  | write dst data => trivial
  | get pcalloc =>
    intro hfree hne
    obtain ⟨dst, rfl⟩ := Option.ne_none_iff_exists'.1 hne
    have hroom : ¬ (u.pool.dstoreLimits < u.pool.allacDstoreN ∧ u.pool.dstoreFreeList = []) := by
      rintro ⟨hlt, -⟩
      have hlimit := h.limit
      rw [h.count] at hlt
      omega
    simp only [StoreUse.step, storeGet, if_neg hroom] at hstep
    simp only [hfree, Option.map_some, if_true] at hstep
    have hlimit := hgood.limit
    rw [← Option.some.inj hstep, Option.toList_some, List.singleton_append,
      List.length_cons] at hlimit
    rw [h.count]
    exact hlimit

def StorePool.counters (dsp : StorePool) : DataStorePool :=
  ⟨dsp.freeN, dsp.usingN, dsp.allacDstoreN, dsp.dsize, dsp.dstoreLimits⟩

theorem StoreInv.get_counters (h : StoreInv u) {pcalloc : Option ℕ}
    (hsound : u.Sound (.get pcalloc))
    {r : Option ℕ × StorePool} (hget : storeGet u.pool pcalloc = some r) :
    dataStoreGet pcalloc.isSome u.pool.counters =
      (r.1.map fun _ => .empty u.pool.dsize, r.2.counters) := by
  have hlength := h.length
  have hlimit := h.limit
  have hbound := h.bound
  have hroom : ¬ u.pool.dstoreLimits < u.pool.allacDstoreN := by
    rw [h.count]
    omega
  simp only [storeGet, hroom, false_and, if_false] at hget
  rw [dataStoreGet, if_neg fun hlt => hroom hlt.1]
  cases hfree : u.pool.dstoreFreeList with
  | nil =>
    have hfreeN : u.pool.counters.freeN = 0 := h.frees.trans (congrArg List.length hfree)
    rw [if_pos hfreeN]
    simp only [hfree] at hget
    cases pcalloc with
    | none =>
      cases hget
      rfl
    | some dst =>
      have hbelow : u.allocated.length < u.pool.dstoreLimits := h.count ▸ hsound hfree nofun
      have husing : add 32 u.pool.usingN 1 = u.pool.usingN + 1 :=
        Word.add_of_lt (by rw [h.uses]; omega)
      have halloc : add 32 u.pool.allacDstoreN 1 = u.pool.allacDstoreN + 1 :=
        Word.add_of_lt (by rw [h.count]; omega)
      cases hget
      simp [StorePool.counters, StorePool.initStore, husing, halloc]
  | cons dst rest =>
    rw [hfree, List.length_cons] at hlength
    have hfrees := h.frees
    rw [hfree, List.length_cons] at hfrees
    have hfreeN : ¬ u.pool.counters.freeN = 0 := by
      change ¬ u.pool.freeN = 0
      omega
    have hcell := h.cells dst (h.stores.subset (hfree ▸ List.mem_cons_self))
    have husing : add 32 u.pool.usingN 1 = u.pool.usingN + 1 :=
      Word.add_of_lt (by rw [h.uses]; omega)
    have hsub : sub 32 u.pool.freeN 1 = u.pool.freeN - 1 := Word.sub_of_le (by omega) (by omega)
    rw [if_neg hfreeN]
    simp only [hfree, hcell.mark, ne_eq, not_true_eq_false, if_false] at hget
    cases hget
    simp [StorePool.counters, StorePool.setPos, husing, hsub]

/-- The stores of the loop of `ch_sa_data_store_pool_create`. -/
def untilFailure : List (Option ℕ) → List ℕ
  | some dst :: allocated => dst :: untilFailure allocated
  | _ => []

def preStores (palloc : ℕ → Option ℕ) : List ℕ := untilFailure ((List.range preAllocN).map palloc)

structure PreAllocated (dsp dsp' : StorePool) (new : List ℕ) : Prop where
  freeList : dsp'.dstoreFreeList = dsp.dstoreFreeList ++ new
  freeN : dsp'.freeN = dsp.freeN + new.length
  count : dsp'.allacDstoreN = dsp.allacDstoreN + new.length
  usingN : dsp'.usingN = dsp.usingN
  limit : dsp'.dstoreLimits = dsp.dstoreLimits
  size : dsp'.dsize = dsp.dsize
  cells : ∀ dst, dst ∈ new ∨ CellOk dsp.dsize (dsp.store dst) → CellOk dsp.dsize (dsp'.store dst)

theorem preAllocStores_preAllocated (allocated : List (Option ℕ)) (dsp : StorePool)
    (hfree : dsp.freeN + allocated.length < 2 ^ 32)
    (hcount : dsp.allacDstoreN + allocated.length < 2 ^ 32) :
    PreAllocated dsp (preAllocStores allocated dsp) (untilFailure allocated) := by
  induction allocated generalizing dsp with
  | nil =>
    exact ⟨(List.append_nil _).symm, rfl, rfl, rfl, rfl, rfl, fun _ h =>
      h.resolve_left List.not_mem_nil⟩
  | cons palloc allocated ih =>
    rw [List.length_cons] at hfree hcount
    cases palloc with
    | none =>
      exact ⟨(List.append_nil _).symm, rfl, rfl, rfl, rfl, rfl, fun _ h =>
        h.resolve_left List.not_mem_nil⟩
    | some dst =>
      have hfreeN : (dsp.preStore dst).freeN = dsp.freeN + 1 :=
        Word.add_of_lt (show dsp.freeN + 1 < 2 ^ 32 by omega)
      have hallac : (dsp.preStore dst).allacDstoreN = dsp.allacDstoreN + 1 :=
        Word.add_of_lt (show dsp.allacDstoreN + 1 < 2 ^ 32 by omega)
      have hrest := ih (dsp.preStore dst) (by omega) (by omega)
      refine ⟨?_, ?_, ?_, hrest.usingN, hrest.limit, hrest.size, fun d hd => ?_⟩
      · rw [preAllocStores, hrest.freeList]
        exact List.append_cons _ _ _ ▸ rfl
      · rw [preAllocStores, hrest.freeN, hfreeN, untilFailure, List.length_cons]
        omega
      · rw [preAllocStores, hrest.count, hallac, untilFailure, List.length_cons]
        omega
      · refine hrest.cells d ?_
        by_cases heq : d = dst
        · refine .inr ?_
          rw [heq]
          simp only [StorePool.preStore, StorePool.initStore, Function.update_self]
          exact ⟨rfl, rfl, Nat.zero_le _⟩
        · refine hd.imp (fun hnew => (List.mem_cons.1 hnew).resolve_left heq) fun hcell => ?_
          simp only [StorePool.preStore, StorePool.initStore, Function.update_of_ne heq]
          exact hcell

variable {dsize dstoreLimits : UInt32} {store : ℕ → StoreCell} {palloc : ℕ → Option ℕ}

theorem start_preAllocated (dsize dstoreLimits : UInt32) (store : ℕ → StoreCell)
    (palloc : ℕ → Option ℕ) :
    PreAllocated ⟨store, [], 0, 0, 0, if dsize.toNat < maxDsize then dsize.toNat else maxDsize,
      dstoreLimits.toNat⟩ (StoreUse.start dsize dstoreLimits store palloc).pool
        (preStores palloc) := by
  have hlength : ((List.range preAllocN).map palloc).length = preAllocN := by
    rw [List.length_map, List.length_range]
  have hlt : 0 + ((List.range preAllocN).map palloc).length < 2 ^ 32 := by
    rw [hlength]
    decide
  simp only [StoreUse.start, storePoolCreate, preStores]
  exact preAllocStores_preAllocated _ _ hlt hlt

theorem start_allocated (dsize dstoreLimits : UInt32) (store : ℕ → StoreCell)
    (palloc : ℕ → Option ℕ) :
    (StoreUse.start dsize dstoreLimits store palloc).allocated = preStores palloc := by
  have hfree := (start_preAllocated dsize dstoreLimits store palloc).freeList
  rw [List.nil_append] at hfree
  rw [← hfree]
  simp only [StoreUse.start]

theorem storeInv_start (hnodup : (preStores palloc).Nodup)
    (hlimit : (preStores palloc).length ≤ dstoreLimits.toNat) :
    StoreInv (.start dsize dstoreLimits store palloc) := by
  have hstart := start_preAllocated dsize dstoreLimits store palloc
  have hallocated := start_allocated dsize dstoreLimits store palloc
  have hinUse : (StoreUse.start dsize dstoreLimits store palloc).inUse = [] := by
    simp only [StoreUse.start]
  have hsize := hstart.size
  constructor
  · rw [hstart.freeN, hstart.freeList, List.nil_append, Nat.zero_add]
  · rw [hstart.usingN, hinUse, List.length_nil]
  · rw [hstart.count, hallocated, Nat.zero_add]
  · rw [hallocated, hstart.limit]
    exact hlimit
  · rw [hstart.limit]
    exact dstoreLimits.toNat_lt
  · rw [hallocated, hinUse, hstart.freeList, List.append_nil, List.nil_append]
  · rw [hallocated]
    exact hnodup
  · intro dst hdst
    rw [hsize]
    exact hstart.cells dst (.inl (hallocated ▸ hdst))
  · rw [hsize]
    dsimp only
    split <;> omega

/-- The pool conserves its stores in exactly the runs in which those allocated in advance are within
the limit, and none is allocated at the limit. -/
theorem stores_conserved_iff (dsize dstoreLimits : UInt32) (store : ℕ → StoreCell)
    (palloc : ℕ → Option ℕ) (ops : List StoreOp) (hnodup : (preStores palloc).Nodup)
    (hallows : Follows StoreUse.step StoreUse.Allows (.start dsize dstoreLimits store palloc) ops) :
    (∀ done, done <+: ops →
        ∃ u, runFrom StoreUse.step (.start dsize dstoreLimits store palloc) done = some u ∧
          u.Conserved) ↔
      (preStores palloc).length ≤ dstoreLimits.toNat ∧
        Follows StoreUse.step StoreUse.Sound (.start dsize dstoreLimits store palloc) ops := by
  have hruns (hstart : StoreInv (.start dsize dstoreLimits store palloc)) :=
    good_iff_follows StoreUse.step StoreUse.Allows StoreUse.Sound StoreInv StoreUse.Conserved
      (fun h => h.conserved) (fun h hop hsound => h.step hop hsound)
      (fun h _ hstep hgood => h.sound_of_conserved hstep hgood) hstart hallows
  constructor
  · intro hall
    obtain ⟨u, hrun, hgood⟩ := hall [] List.nil_prefix
    obtain rfl := Option.some.inj hrun
    have hstart := start_preAllocated dsize dstoreLimits store palloc
    have hlimit := hgood.limit
    rw [hstart.limit, start_allocated] at hlimit
    exact ⟨hlimit, (hruns (storeInv_start hnodup hlimit)).1 hall⟩
  · intro h
    exact (hruns (storeInv_start hnodup h.1)).2 h.2

theorem twoStores_conserved :
    (preStores fun i => if i = 0 then some 64 else none).Nodup ∧
      Follows StoreUse.step StoreUse.Allows
        (.start 3 2 (fun _ => ⟨0, fun _ => 0, 0, 0⟩) fun i => if i = 0 then some 64 else none)
        [.get none, .get (some 256), .write 256 [1, 2], .write 256 [3, 4], .free 64,
          .get (some 512)] ∧
      ∀ done, done <+: [.get none, .get (some 256), .write 256 [1, 2], .write 256 [3, 4], .free 64,
          .get (some 512)] →
        ∃ u, runFrom StoreUse.step
          (.start 3 2 (fun _ => ⟨0, fun _ => 0, 0, 0⟩) fun i =>
            if i = 0 then some 64 else none) done =
            some u ∧ u.Conserved := by
  have hnodup : (preStores fun i => if i = 0 then some 64 else none).Nodup := by decide +kernel
  have hallows : Follows StoreUse.step StoreUse.Allows
      (.start 3 2 (fun _ => ⟨0, fun _ => 0, 0, 0⟩) fun i => if i = 0 then some 64 else none)
      [.get none, .get (some 256), .write 256 [1, 2], .write 256 [3, 4], .free 64,
        .get (some 512)] := by
    decide +kernel
  exact ⟨hnodup, hallows, (stores_conserved_iff 3 2 _ _ _ hnodup hallows).2
    ⟨by decide +kernel, by decide +kernel⟩⟩

theorem untilFailure_some {α : Type*} (f : α → ℕ) (xs : List α) :
    untilFailure (xs.map fun x => some (f x)) = xs.map f := by
  induction xs with
  | nil => rfl
  | cons x xs ih => exact congrArg (f x :: ·) ih

/-- A limit of ten stores, and all those of the allocation in advance. -/
theorem tenStores_not_conserved :
    ¬ ∀ (dsize dstoreLimits : UInt32) (store : ℕ → StoreCell) (palloc : ℕ → Option ℕ)
      (ops : List StoreOp), (preStores palloc).Nodup →
      Follows StoreUse.step StoreUse.Allows (.start dsize dstoreLimits store palloc) ops →
      ∀ done, done <+: ops →
        ∃ u, runFrom StoreUse.step (.start dsize dstoreLimits store palloc) done = some u ∧
          u.Conserved := by
  intro hclaim
  have hstores : preStores (fun i => some (600 * (i + 1))) =
      (List.range preAllocN).map (600 * (· + 1)) :=
    untilFailure_some _ _
  have hinjective : Function.Injective fun i : ℕ => 600 * (i + 1) := by
    intro i j hij
    dsimp only at hij
    omega
  have hnodup : (preStores fun i => some (600 * (i + 1))).Nodup :=
    hstores ▸ List.nodup_range.map hinjective
  obtain ⟨u, hrun, hgood⟩ := hclaim 512 10 (fun _ => ⟨0, fun _ => 0, 0, 0⟩) _ [] hnodup trivial []
    List.nil_prefix
  obtain rfl := Option.some.inj hrun
  have hlimit := hgood.limit
  rw [start_allocated, (start_preAllocated _ _ _ _).limit, hstores, List.length_map,
    List.length_range] at hlimit
  revert hlimit
  decide

end CloudHands.Sa
