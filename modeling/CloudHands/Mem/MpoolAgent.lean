import CloudHands.Lib.Run
import CloudHands.Lib.Word

/-!
# Memory-pool agents

`common/ch_mpool_agent.c`. Memory pools are known by their addresses; what `ch_pool_create` returns
is part of the input. `ch_pool_reset` works on the memory of a pool only, and is left out.
-/

namespace CloudHands.Mem

open Lib
open CloudHands.Word (add sub)

/-- `ULONG_MAX`. -/
def ulongMax : ℕ := 2 ^ 64 - 1

/-- `ch_mpool_agent_t`. -/
structure MpoolAgent where
  cacheList : List ℕ
  maxCacheN : ℕ
  curCacheN : ℕ
  poolSize : ℕ
  preAllocN : ℕ
  fromCaches : ℕ
  fromMems : ℕ
  allocs : ℕ
  frees : ℕ
deriving DecidableEq, Repr

/-- `list_add` of a pool, with the counter. -/
def MpoolAgent.cache (mpa : MpoolAgent) (mp : ℕ) : MpoolAgent :=
  { mpa with cacheList := mp :: mpa.cacheList, curCacheN := add 64 mpa.curCacheN 1 }

/-- The loop of `ch_mpool_agent_init`; `created` is what its calls of `ch_pool_create` return. -/
def preAllocate : List (Option ℕ) → MpoolAgent → MpoolAgent
  | [], mpa => mpa
  | none :: created, mpa => preAllocate created mpa
  | some mp :: created, mpa => preAllocate created (mpa.cache mp)

/-- `ch_mpool_agent_init`; the `i`-th call of `ch_pool_create` returns `creation i`. -/
def mpoolAgentInit (maxCacheN poolSize preAllocN : UInt64) (creation : ℕ → Option ℕ) : MpoolAgent :=
  let mpa : MpoolAgent :=
    { cacheList := []
      maxCacheN := if maxCacheN = 0 then 100000 else maxCacheN.toNat
      curCacheN := 0
      poolSize := if poolSize = 0 then 4096 else poolSize.toNat
      preAllocN := if preAllocN = 0 then 1000 else preAllocN.toNat
      fromCaches := 0
      fromMems := 0
      allocs := 0
      frees := 0 }
  preAllocate ((List.range mpa.preAllocN).map creation) mpa

/-- `ch_mpool_agent_alloc`; `creation` is what `ch_pool_create` returns if it is called. -/
def mpoolAgentAlloc (mpa : MpoolAgent) (creation : Option ℕ) : Option ℕ × MpoolAgent :=
  match mpa.cacheList with
  | mp :: rest =>
    (some mp,
      { mpa with
        cacheList := rest
        curCacheN := sub 64 mpa.curCacheN 1
        fromCaches := (mpa.fromCaches + 1) % ulongMax
        allocs := (mpa.allocs + 1) % ulongMax })
  | [] =>
    (creation,
      { mpa with
        fromMems := (mpa.fromMems + 1) % ulongMax
        allocs := (mpa.allocs + 1) % ulongMax })

/-- `ch_mpool_agent_free`, with the pool that it destroys. -/
def mpoolAgentFree (mpa : MpoolAgent) (mp : ℕ) : Option ℕ × MpoolAgent :=
  if mpa.curCacheN < mpa.maxCacheN then
    (none, { mpa.cache mp with frees := (mpa.frees + 1) % ulongMax })
  else (some mp, { mpa with frees := (mpa.frees + 1) % ulongMax })

/-- An agent with the pools that were created, those handed out and not yet freed, those destroyed,
and the number of calls. -/
structure AgentUse where
  agent : MpoolAgent
  created : List ℕ
  held : List ℕ
  destroyed : List ℕ
  allocCalls : ℕ
  freeCalls : ℕ
deriving DecidableEq, Repr

inductive AgentOp
  | alloc (creation : Option ℕ)
  | free (mp : ℕ)
deriving DecidableEq, Repr

/-- The agent as `ch_mpool_agent_init` leaves it. -/
def AgentUse.start (maxCacheN poolSize preAllocN : UInt64) (creation : ℕ → Option ℕ) : AgentUse :=
  let mpa := mpoolAgentInit maxCacheN poolSize preAllocN creation
  ⟨mpa, (List.range mpa.preAllocN).filterMap creation, [], [], 0, 0⟩

def AgentUse.step (u : AgentUse) : AgentOp → AgentUse
  | .alloc creation =>
    let r := mpoolAgentAlloc u.agent creation
    { u with
      agent := r.2
      created := (if u.agent.cacheList = [] then creation.toList else []) ++ u.created
      held := r.1.toList ++ u.held
      allocCalls := u.allocCalls + 1 }
  | .free mp =>
    let r := mpoolAgentFree u.agent mp
    { u with
      agent := r.2
      held := u.held.erase mp
      destroyed := r.1.toList ++ u.destroyed
      freeCalls := u.freeCalls + 1 }

/-- The contracts: `ch_pool_create` returns memory that no pool has, and only pools that were
obtained and not yet freed are freed. -/
def AgentUse.Allows (u : AgentUse) : AgentOp → Prop
  | .alloc creation => ∀ mp ∈ creation, mp ∉ u.agent.cacheList ∧ mp ∉ u.held
  | .free mp => mp ∈ u.held

instance decidableAgentAllows (u : AgentUse) : (op : AgentOp) → Decidable (u.Allows op)
  | .alloc creation =>
    inferInstanceAs (Decidable (∀ mp ∈ creation, mp ∉ u.agent.cacheList ∧ mp ∉ u.held))
  | .free mp => inferInstanceAs (Decidable (mp ∈ u.held))

def AgentUse.Unwrapped (u : AgentUse) : Prop := u.allocCalls < ulongMax ∧ u.freeCalls < ulongMax

/-- Every pool that was created is cached, handed out or destroyed, none of them in two places, the
cache is counted and below its limit, and the calls tell how many pools are handed out. -/
structure AgentUse.Conserved (u : AgentUse) : Prop where
  count : u.agent.curCacheN = u.agent.cacheList.length
  limit : u.agent.curCacheN ≤ u.agent.maxCacheN
  distinct : (u.agent.cacheList ++ u.held).Nodup
  kept : u.created.Perm (u.agent.cacheList ++ u.held ++ u.destroyed)
  balance : u.Unwrapped → u.agent.allocs = u.agent.frees + u.held.length

/-- The step does not hand out `NULL`, at least as long as the calls are counted. -/
def AgentUse.Sound (u : AgentUse) : AgentOp → Prop
  | .alloc creation => u.agent.cacheList = [] → creation = none → ulongMax ≤ u.allocCalls + 1
  | .free _ => True

instance decidableAgentSound (u : AgentUse) : (op : AgentOp) → Decidable (u.Sound op)
  | .alloc creation =>
    inferInstanceAs (Decidable
      (u.agent.cacheList = [] → creation = none → ulongMax ≤ u.allocCalls + 1))
  | .free _ => inferInstanceAs (Decidable True)

end CloudHands.Mem
