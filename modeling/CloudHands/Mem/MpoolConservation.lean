import CloudHands.Mem.MpoolAgent

/-!
# No memory pool is lost or handed out twice

A pool moves between the cache, those who were handed it, and those that are destroyed. Freeing
looks at the limit of the cache, the allocation in advance does not; and a call that creates no
pool counts like one that hands a pool out.
-/

namespace CloudHands.Mem

open Lib
open CloudHands.Word (add sub)

variable {u : AgentUse}

theorem preAllocate_eq (created : List (Option ℕ)) (mpa : MpoolAgent)
    (hcount : mpa.curCacheN + created.length < 2 ^ 64) :
    preAllocate created mpa =
      { mpa with
        cacheList := (created.filterMap id).reverse ++ mpa.cacheList
        curCacheN := mpa.curCacheN + (created.filterMap id).length } := by
  induction created generalizing mpa with
  | nil => rfl
  | cons creation created ih =>
    rw [List.length_cons] at hcount
    cases creation with
    | none =>
      rw [preAllocate, ih mpa (by omega)]
      rfl
    | some mp =>
      have hadd : add 64 mpa.curCacheN 1 = mpa.curCacheN + 1 := Word.add_of_lt (by omega)
      rw [preAllocate, ih _ (by simp only [MpoolAgent.cache, hadd]; omega)]
      simp only [MpoolAgent.cache, hadd, List.filterMap_cons, id, List.reverse_cons,
        List.append_assoc, List.singleton_append, List.length_cons]
      congr 1
      omega

structure AgentInv (u : AgentUse) : Prop where
  count : u.agent.curCacheN = u.agent.cacheList.length
  limit : u.agent.curCacheN ≤ u.agent.maxCacheN
  bound : u.agent.maxCacheN < 2 ^ 64
  distinct : (u.agent.cacheList ++ u.held).Nodup
  kept : u.created.Perm (u.agent.cacheList ++ u.held ++ u.destroyed)
  calls : u.freeCalls + u.held.length ≤ u.allocCalls
  counted : u.allocCalls < ulongMax → u.agent.allocs = u.allocCalls ∧
    u.agent.frees = u.freeCalls ∧ u.allocCalls = u.freeCalls + u.held.length

theorem AgentInv.conserved (h : AgentInv u) : u.Conserved where
  count := h.count
  limit := h.limit
  distinct := h.distinct
  kept := h.kept
  balance hunwrapped := by
    obtain ⟨hallocs, hfrees, hcalls⟩ := h.counted hunwrapped.1
    rw [hallocs, hfrees, hcalls]

theorem count_succ {n calls : ℕ} (hn : n = calls) (h : calls + 1 < ulongMax) :
    (n + 1) % ulongMax = calls + 1 := by
  rw [hn]
  exact Nat.mod_eq_of_lt h

theorem AgentInv.alloc (h : AgentInv u) {creation : Option ℕ} (hallows : u.Allows (.alloc creation))
    (hsound : u.Sound (.alloc creation)) : AgentInv (u.step (.alloc creation)) := by
  have hcalls := h.calls
  cases hcache : u.agent.cacheList with
  | cons mp rest =>
    have hstep : u.step (.alloc creation) =
        { u with
          agent := { u.agent with
            cacheList := rest
            curCacheN := sub 64 u.agent.curCacheN 1
            fromCaches := (u.agent.fromCaches + 1) % ulongMax
            allocs := (u.agent.allocs + 1) % ulongMax }
          held := mp :: u.held
          allocCalls := u.allocCalls + 1 } := by
      simp [AgentUse.step, mpoolAgentAlloc, hcache]
    have hcount : u.agent.curCacheN = rest.length + 1 := by
      rw [h.count, hcache, List.length_cons]
    have hbelow := h.limit.trans_lt h.bound
    have hsub : sub 64 u.agent.curCacheN 1 = rest.length := by
      rw [Word.sub_of_le hbelow (by omega), hcount, Nat.add_sub_cancel]
    have hperm : (mp :: rest ++ u.held).Perm (rest ++ mp :: u.held) := List.perm_middle.symm
    rw [hstep]
    constructor
    · exact hsub
    · have hlimit := h.limit
      dsimp only
      omega
    · exact h.bound
    · have hdistinct := h.distinct
      rw [hcache] at hdistinct
      exact hperm.nodup_iff.1 hdistinct
    · have hkept := h.kept
      rw [hcache] at hkept
      exact hkept.trans (hperm.append_right _)
    · simp only [List.length_cons]
      omega
    · intro hlt
      dsimp only at hlt ⊢
      obtain ⟨hallocs, hfrees, hheld⟩ := h.counted (by omega)
      refine ⟨count_succ hallocs hlt, hfrees, ?_⟩
      rw [List.length_cons]
      omega
  | nil =>
    have hstep : u.step (.alloc creation) =
        { u with
          agent := { u.agent with
            fromMems := (u.agent.fromMems + 1) % ulongMax
            allocs := (u.agent.allocs + 1) % ulongMax }
          created := creation.toList ++ u.created
          held := creation.toList ++ u.held
          allocCalls := u.allocCalls + 1 } := by
      simp [AgentUse.step, mpoolAgentAlloc, hcache]
    have hdistinct := h.distinct
    have hkept := h.kept
    rw [hcache, List.nil_append] at hdistinct hkept
    rw [hstep]
    constructor
    · exact h.count
    · exact h.limit
    · exact h.bound
    · rw [hcache, List.nil_append]
      cases creation with
      | none => exact hdistinct
      | some mp => exact List.nodup_cons.2 ⟨(hallows mp rfl).2, hdistinct⟩
    · rw [hcache, List.nil_append, List.append_assoc]
      exact hkept.append_left _
    · have hone : creation.toList.length ≤ 1 := by cases creation <;> simp
      dsimp only
      rw [List.length_append]
      omega
    · intro hlt
      dsimp only at hlt ⊢
      obtain ⟨hallocs, hfrees, hheld⟩ := h.counted (by omega)
      refine ⟨count_succ hallocs hlt, hfrees, ?_⟩
      cases creation with
      | none =>
        have hwrapped := hsound hcache rfl
        omega
      | some mp =>
        simp only [Option.toList_some, List.singleton_append, List.length_cons]
        omega

theorem AgentInv.free (h : AgentInv u) {mp : ℕ} (hheld : mp ∈ u.held) :
    AgentInv (u.step (.free mp)) := by
  have hperm := List.perm_cons_erase hheld
  have hlength := hperm.length_eq
  rw [List.length_cons] at hlength
  have hcalls := h.calls
  have hcounted : u.allocCalls < ulongMax → u.agent.allocs = u.allocCalls ∧
      (u.agent.frees + 1) % ulongMax = u.freeCalls + 1 ∧
      u.allocCalls = u.freeCalls + 1 + (u.held.erase mp).length := by
    intro hlt
    obtain ⟨hallocs, hfrees, hcount⟩ := h.counted hlt
    exact ⟨hallocs, count_succ hfrees (by omega), by omega⟩
  by_cases hroom : u.agent.curCacheN < u.agent.maxCacheN
  · have hbound := h.bound
    have hadd : add 64 u.agent.curCacheN 1 = u.agent.curCacheN + 1 := Word.add_of_lt (by omega)
    have hstep : u.step (.free mp) =
        { u with
          agent := { u.agent with
            cacheList := mp :: u.agent.cacheList
            curCacheN := u.agent.curCacheN + 1
            frees := (u.agent.frees + 1) % ulongMax }
          held := u.held.erase mp
          freeCalls := u.freeCalls + 1 } := by
      simp [AgentUse.step, mpoolAgentFree, MpoolAgent.cache, hroom, hadd]
    have hmoved : (u.agent.cacheList ++ u.held).Perm (mp :: u.agent.cacheList ++ u.held.erase mp) :=
      (hperm.append_left _).trans List.perm_middle
    rw [hstep]
    constructor
    · exact congrArg (· + 1) h.count
    · exact hroom
    · exact hbound
    · exact hmoved.nodup_iff.1 h.distinct
    · exact h.kept.trans (hmoved.append_right _)
    · dsimp only
      omega
    · exact hcounted
  · have hstep : u.step (.free mp) =
        { u with
          agent := { u.agent with frees := (u.agent.frees + 1) % ulongMax }
          held := u.held.erase mp
          destroyed := mp :: u.destroyed
          freeCalls := u.freeCalls + 1 } := by
      simp [AgentUse.step, mpoolAgentFree, hroom]
    have hsublist : (u.agent.cacheList ++ u.held.erase mp).Sublist (u.agent.cacheList ++ u.held) :=
      List.erase_sublist.append_left _
    have hmoved : (u.held ++ u.destroyed).Perm (u.held.erase mp ++ mp :: u.destroyed) :=
      (hperm.append_right _).trans List.perm_middle.symm
    rw [hstep]
    constructor
    · exact h.count
    · exact h.limit
    · exact h.bound
    · exact h.distinct.sublist hsublist
    · have hkept := h.kept
      rw [List.append_assoc] at hkept ⊢
      exact hkept.trans (hmoved.append_left _)
    · dsimp only
      omega
    · exact hcounted

theorem AgentInv.step (h : AgentInv u) {op : AgentOp} (hallows : u.Allows op)
    (hsound : u.Sound op) :
    AgentInv (u.step op) := by
  cases op with
  | alloc creation => exact h.alloc hallows hsound
  | free mp => exact h.free hallows

/-- A call that hands out `NULL` is counted like one that hands out a pool. -/
theorem AgentInv.sound_of_conserved (h : AgentInv u) {op : AgentOp}
    (hgood : (u.step op).Conserved) :
    u.Sound op := by
  cases op with
  | free mp => trivial
  | alloc creation =>
    intro hcache hnone
    by_contra hlt
    have hcalls := h.calls
    obtain ⟨hallocs, hfrees, hheld⟩ := h.counted (by omega)
    have hbalance := hgood.balance
    simp only [AgentUse.step, mpoolAgentAlloc, hcache, hnone, AgentUse.Unwrapped,
      Option.toList_none,
      List.nil_append] at hbalance
    rw [count_succ hallocs (by omega)] at hbalance
    have hwrong := hbalance ⟨by omega, by omega⟩
    omega

variable {maxCacheN poolSize preAllocN : UInt64} {creation : ℕ → Option ℕ}

/-- The pools that `ch_mpool_agent_init` creates, and how many the cache may have. -/
def initPools (preAllocN : UInt64) (creation : ℕ → Option ℕ) : List ℕ :=
  (List.range (if preAllocN = 0 then 1000 else preAllocN.toNat)).filterMap creation

def cacheLimit (maxCacheN : UInt64) : ℕ := if maxCacheN = 0 then 100000 else maxCacheN.toNat

theorem cacheLimit_lt (maxCacheN : UInt64) : cacheLimit maxCacheN < 2 ^ 64 := by
  rw [cacheLimit]
  split
  · decide
  · exact maxCacheN.toNat_lt

theorem start_agent (maxCacheN poolSize preAllocN : UInt64) (creation : ℕ → Option ℕ) :
    (AgentUse.start maxCacheN poolSize preAllocN creation).agent =
      { cacheList := (initPools preAllocN creation).reverse
        maxCacheN := cacheLimit maxCacheN
        curCacheN := (initPools preAllocN creation).length
        poolSize := if poolSize = 0 then 4096 else poolSize.toNat
        preAllocN := if preAllocN = 0 then 1000 else preAllocN.toNat
        fromCaches := 0
        fromMems := 0
        allocs := 0
        frees := 0 } := by
  have hlt : (if preAllocN = 0 then 1000 else preAllocN.toNat) < 2 ^ 64 := by
    split
    · decide
    · exact preAllocN.toNat_lt
  have hfilter :
      ((List.range (if preAllocN = 0 then 1000 else preAllocN.toNat)).map creation).filterMap id =
      initPools preAllocN creation := by
    rw [List.filterMap_map]
    rfl
  simp only [AgentUse.start, mpoolAgentInit]
  rw [preAllocate_eq _ _ (by simpa using hlt)]
  simp only [hfilter, List.append_nil, Nat.zero_add, cacheLimit]

theorem agentInv_start (hcreation : (initPools preAllocN creation).Nodup)
    (hlimit : (initPools preAllocN creation).length ≤ cacheLimit maxCacheN) :
    AgentInv (AgentUse.start maxCacheN poolSize preAllocN creation) := by
  have hagent := start_agent maxCacheN poolSize preAllocN creation
  have hcreated : (AgentUse.start maxCacheN poolSize preAllocN creation).created =
      initPools preAllocN creation := by
    change List.filterMap creation
      (List.range (AgentUse.start maxCacheN poolSize preAllocN creation).agent.preAllocN) = _
    rw [hagent]
    rfl
  constructor
  · rw [hagent, List.length_reverse]
  · rw [hagent]
    exact hlimit
  · rw [hagent]
    exact cacheLimit_lt maxCacheN
  · rw [hagent]
    simpa only [AgentUse.start, List.append_nil] using List.nodup_reverse.2 hcreation
  · rw [hcreated, hagent]
    simp only [AgentUse.start, List.append_nil]
    exact (List.reverse_perm _).symm
  · exact Nat.le_refl 0
  · intro
    rw [hagent]
    exact ⟨rfl, rfl, rfl⟩

/-- The agent conserves its pools in exactly the runs in which the pools of the allocation in
advance fit into the cache, and no call hands out `NULL`. -/
theorem pools_conserved_iff (maxCacheN poolSize preAllocN : UInt64) (creation : ℕ → Option ℕ)
    (ops : List AgentOp) (hcreation : (initPools preAllocN creation).Nodup)
    (hallows : ∀ v ∈ trace AgentUse.step (.start maxCacheN poolSize preAllocN creation) ops,
      v.1.Allows v.2) :
    (∀ done, done <+: ops →
        (done.foldl AgentUse.step (.start maxCacheN poolSize preAllocN creation)).Conserved) ↔
      (initPools preAllocN creation).length ≤ cacheLimit maxCacheN ∧
        ∀ v ∈ trace AgentUse.step (.start maxCacheN poolSize preAllocN creation) ops,
          v.1.Sound v.2 := by
  have hruns (hstart : AgentInv (.start maxCacheN poolSize preAllocN creation)) :=
    good_iff_trace AgentUse.step AgentUse.Allows AgentUse.Sound AgentInv AgentUse.Conserved
      (fun h => h.conserved) (fun h hop hsound => h.step hop hsound)
      (fun h _ hgood => h.sound_of_conserved hgood) hstart hallows
  constructor
  · intro hall
    have hlimit := (hall [] List.nil_prefix).limit
    rw [List.foldl_nil, start_agent] at hlimit
    exact ⟨hlimit, (hruns (agentInv_start hcreation hlimit)).1 hall⟩
  · intro h
    exact (hruns (agentInv_start hcreation h.1)).2 h.2

theorem twoPools_conserved :
    (initPools 1 fun i => some (4096 * (i + 1))).Nodup ∧
      ∀ done, done <+: [.alloc none, .alloc (some 8192), .free 4096, .free 8192] →
        (done.foldl AgentUse.step (.start 1 0 1 fun i => some (4096 * (i + 1)))).Conserved := by
  have hcreation : (initPools 1 fun i => some (4096 * (i + 1))).Nodup := by decide +kernel
  refine ⟨hcreation, (pools_conserved_iff 1 0 1 _ _ hcreation ?_).2 ⟨?_, ?_⟩⟩
  · decide +kernel
  · decide +kernel
  · decide +kernel

/-- Two pools in advance for a cache of one. -/
theorem advancePools_not_conserved :
    ¬ ∀ (maxCacheN poolSize preAllocN : UInt64) (creation : ℕ → Option ℕ) (ops : List AgentOp),
      (initPools preAllocN creation).Nodup →
      (∀ v ∈ trace AgentUse.step (.start maxCacheN poolSize preAllocN creation) ops,
        v.1.Allows v.2) →
      ∀ done, done <+: ops →
        (done.foldl AgentUse.step (.start maxCacheN poolSize preAllocN creation)).Conserved := by
  intro hclaim
  have hstart := hclaim 1 0 2 (fun i => some (4096 * (i + 1))) [] (by decide +kernel)
    (by decide +kernel) [] List.nil_prefix
  have hlimit := hstart.limit
  revert hlimit
  decide +kernel

end CloudHands.Mem
