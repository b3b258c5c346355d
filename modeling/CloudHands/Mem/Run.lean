import CloudHands.Mem.Capacity

/-!
# Runs of the memory

The state of a run is the memory with what the program holds. What an operation keeps is shown for
requests that leave room for the item; that a block is large enough for what was asked for needs
more, since the size of a request is not bounded.
-/

namespace CloudHands.Mem

open Lib

structure Inv (w : World) : Prop where
  blocks : BlocksOk w.mem.blocks
  cached : CachedOk w.mem (w.held.map Held.addr)
  held : ∀ a ∈ w.held.map Held.addr, ∃ n, bytesAt w.mem.blocks a = some n
  nodup : (w.held.map Held.addr).Nodup

def HasRoom : MemOp → Prop
  | .alloc size _ _ => itemSize ≤ realSize size
  | _ => True

/-- A block that is held after a step was held before, or has the size computed for its request. -/
def Kept (w : World) (op : MemOp) (w' : World) : Prop :=
  ∀ h ∈ w'.held,
    (∃ now g, op = .alloc h.size now g ∧ bytesAt w'.mem.blocks h.addr = some (realSize h.size)) ∨
      h ∈ w.held ∧ bytesAt w'.mem.blocks h.addr = bytesAt w.mem.blocks h.addr

variable {w : World}

theorem map_filter_addr (held : List Held) (a : ℕ) :
    (held.filter fun h => h.addr ≠ a).map Held.addr = (held.map Held.addr).filter (· ≠ a) := by
  rw [List.filter_map]
  rfl

theorem Inv.alloc (h : Inv w) {size : ℕ} {g : Grant} (hroom : itemSize ≤ realSize size)
    (hfresh : g.Fresh w.mem (realSize size)) (now : ℕ) :
    ∃ w', w.step (.alloc size now g) = some w' ∧ Inv w' ∧ Kept w (.alloc size now g) w' := by
  obtain ⟨r, m', halloc, hok, hframe, hr⟩ := @allocRounded_eq _ _ size _ _ h.blocks h.cached h.held
    hroom (realSize_pow hroom) hfresh now
  have hmem : ∀ x ∈ w.held, x.addr ∈ w.held.map Held.addr := fun x hx => List.mem_map_of_mem hx
  cases r with
  | none =>
    refine ⟨⟨m', w.held⟩, by rw [World.step, doMemoryAlloc, halloc]; rfl,
      ⟨hok, hr, fun a ha => ?_, h.nodup⟩, ?_⟩
    · rw [hframe a ha]
      exact h.held a ha
    · exact fun x hx => .inr ⟨hx, hframe _ (hmem x hx)⟩
  | some a =>
    obtain ⟨hnot, ha, hcached⟩ := hr
    refine ⟨⟨m', ⟨a, size⟩ :: w.held⟩, by rw [World.step, doMemoryAlloc, halloc]; rfl,
      ⟨hok, hcached, List.forall_mem_cons.2 ⟨⟨_, ha⟩, fun a' ha' => ?_⟩,
        List.nodup_cons.2 ⟨hnot, h.nodup⟩⟩,
      List.forall_mem_cons.2 ⟨.inl ⟨now, g, rfl, ha⟩, fun x hx => .inr ⟨hx, hframe _ (hmem x hx)⟩⟩⟩
    rw [hframe a' ha']
    exact h.held a' ha'

theorem Inv.free (h : Inv w) {a : ℕ} (ha : a ∈ w.held.map Held.addr)
    (clock : Fin maxCacheIndex → ℕ) (now : ℕ) :
    ∃ w', w.step (.free a clock now) = some w' ∧ Inv w' ∧ Kept w (.free a clock now) w' := by
  obtain ⟨m', hfree, hok, hcached, hframe⟩ := memoryFree_eq h.blocks h.cached h.held ha clock now
  refine ⟨⟨m', w.held.filter fun x => x.addr ≠ a⟩, by rw [World.step, hfree]; rfl,
    ⟨hok, ?_, ?_, ?_⟩, ?_⟩
  · rw [map_filter_addr]
    exact hcached
  · intro a' ha'
    rw [map_filter_addr, List.mem_filter] at ha'
    rw [hframe a' ha'.1 (of_decide_eq_true ha'.2)]
    exact h.held a' ha'.1
  · rw [map_filter_addr]
    exact h.nodup.filter _
  · intro x hx
    obtain ⟨hmem, hne⟩ := List.mem_filter.1 hx
    exact .inr ⟨hmem, hframe _ (List.mem_map_of_mem hmem) (of_decide_eq_true hne)⟩

theorem Inv.reset (h : Inv w) (clock : Fin maxCacheIndex → ℕ) :
    ∃ w', w.step (.reset clock) = some w' ∧ Inv w' ∧ Kept w (.reset clock) w' := by
  simp only [World.step]
  cases hmcache : w.mem.mcache with
  | none => exact ⟨w, rfl, h, fun x hx => .inr ⟨hx, rfl⟩⟩
  | some mc =>
    obtain ⟨m', mc', hreset, hok, hcache, -, hframe⟩ :=
      memoryCacheReset_eq clock h.blocks (h.cached mc hmcache)
    refine ⟨⟨{ m' with mcache := some mc' }, w.held⟩, by simp only [hreset, Option.map_some],
      ⟨hok, ?_, fun a ha => ?_, h.nodup⟩, fun x hx => .inr ⟨hx, hframe _ (List.mem_map_of_mem hx)⟩⟩
    · rintro mc'' ⟨⟩
      exact hcache
    · rw [hframe a ha]
      exact h.held a ha

theorem Inv.step (h : Inv w) {op : MemOp} (hallows : w.Allows op) (hroom : HasRoom op) :
    ∃ w', w.step op = some w' ∧ Inv w' ∧ Kept w op w' := by
  cases op with
  | alloc size now g => exact h.alloc hroom hallows.2 now
  | free a clock now => exact h.free hallows clock now
  | reset clock => exact h.reset clock

theorem inv_create (maxCacheSize timeout : ℕ) (clock : Fin maxCacheIndex → ℕ) :
    Inv (World.create maxCacheSize timeout clock) where
  blocks := by
    constructor <;> simp [World.create, memoryCreate]
  cached := by
    intro mc hmc
    have hempty : ∀ i, (mc.cacheHeaders i).items = [] := by
      intro i
      simp only [World.create, memoryCreate] at hmc
      split at hmc
      · cases hmc
        rfl
      · cases hmc
    constructor <;> intro i <;> simp [hempty i]
  held := List.forall_mem_nil _
  nodup := List.nodup_nil

/-- Buckets have the blocks of their size, a block that is held is large enough, and no block is
both in the cache and held. -/
structure CapacityOk (w : World) : Prop where
  buckets : ∀ mc, w.mem.mcache = some mc → ∀ i, ∀ a ∈ (mc.cacheHeaders i).items,
    bytesAt w.mem.blocks a = some (2 ^ (i : ℕ))
  held : ∀ h ∈ w.held, ∃ n, bytesAt w.mem.blocks h.addr = some n ∧ h.size + itemSize ≤ n
  apart : ∀ mc, w.mem.mcache = some mc → ∀ i, ∀ a ∈ (mc.cacheHeaders i).items,
    a ∉ w.held.map Held.addr
  nodup : (w.held.map Held.addr).Nodup

/-- Neither adding the item to the request nor rounding wraps. -/
def Fits : MemOp → Prop
  | .alloc size _ _ => size + itemSize ≤ 2 ^ 63
  | _ => True

instance : (op : MemOp) → Decidable (Fits op)
  | .alloc size _ _ => inferInstanceAs (Decidable (size + itemSize ≤ 2 ^ 63))
  | .free _ _ _ => inferInstanceAs (Decidable True)
  | .reset _ => inferInstanceAs (Decidable True)

theorem Fits.hasRoom {op : MemOp} (h : Fits op) : HasRoom op := by
  cases op with
  | alloc size now g => exact (Nat.le_add_left itemSize size).trans (le_realSize h)
  | free a clock now => trivial
  | reset clock => trivial

def HeldOk (w : World) : Prop :=
  ∀ h ∈ w.held, ∃ n, bytesAt w.mem.blocks h.addr = some n ∧ h.size + itemSize ≤ n

theorem HeldOk.kept {w' : World} {op : MemOp} (h : HeldOk w) (hkept : Kept w op w')
    (hfits : Fits op) : HeldOk w' := by
  intro x hx
  rcases hkept x hx with ⟨now, g, rfl, hbytes⟩ | ⟨hold, hbytes⟩
  · exact ⟨_, hbytes, le_realSize hfits⟩
  · rw [hbytes]
    exact h x hold

theorem Inv.capacityOk (h : Inv w) (hheld : HeldOk w) : CapacityOk w where
  buckets mc hmc := (h.cached mc hmc).bytes
  held := hheld
  apart mc hmc := (h.cached mc hmc).apart
  nodup := h.nodup

/-- Blocks are large enough in every run whose requests do not wrap. -/
theorem blocks_large_enough (maxCacheSize timeout : ℕ) (clock : Fin maxCacheIndex → ℕ)
    (ops : List MemOp)
    (h : Follows World.step (fun w op => w.Allows op ∧ Fits op)
      (World.create maxCacheSize timeout clock) ops) :
    ∃ w, runFrom World.step (World.create maxCacheSize timeout clock) ops = some w ∧
      CapacityOk w := by
  obtain ⟨w, hrun, hinv, hheld⟩ := h.run (fun w => Inv w ∧ HeldOk w)
    (fun {w op} hw hop => by
      obtain ⟨w', hstep, hinv, hkept⟩ := hw.1.step hop.1 hop.2.hasRoom
      exact ⟨w', hstep, hinv, hw.2.kept hkept hop.2⟩)
    ⟨inv_create maxCacheSize timeout clock, List.forall_mem_nil _⟩
  exact ⟨w, hrun, hinv.capacityOk hheld⟩

def reusedBlock : List MemOp :=
  [.alloc 200 0 ⟨some 4096, none⟩, .free 4096 (fun _ => 0) 0, .alloc 150 0 ⟨none, none⟩]

theorem reusedBlock_large_enough :
    Follows World.step (fun w op => w.Allows op ∧ Fits op) (World.create 1 0 fun _ =>
      0) reusedBlock ∧
      ∃ w, runFrom World.step (World.create 1 0 fun _ => 0) reusedBlock = some w ∧
        CapacityOk w := by
  have h : Follows World.step (fun w op => w.Allows op ∧ Fits op) (World.create 1 0 fun _ => 0)
      reusedBlock := by
    decide +kernel
  exact ⟨h, blocks_large_enough 1 0 (fun _ => 0) reusedBlock h⟩

def wrappedRequest : List MemOp := [.alloc (2 ^ 64 - 1) 0 ⟨none, some 4096⟩]

theorem wrappedRequest_too_small :
    ¬ ∀ maxCacheSize timeout clock ops,
      Follows World.step World.Allows (World.create maxCacheSize timeout clock) ops →
        ∃ w, runFrom World.step (World.create maxCacheSize timeout clock) ops = some w ∧
          CapacityOk w := by
  intro hclaim
  obtain ⟨w, hrun, hok⟩ := hclaim 0 0 (fun _ => 0) wrappedRequest (by decide +kernel)
  have hend : (runFrom World.step (World.create 0 0 fun _ => 0) wrappedRequest).map
      (fun w => (w.held, bytesAt w.mem.blocks 4096)) = some ([⟨4096, 2 ^ 64 - 1⟩], some 64) := by
    decide +kernel
  rw [hrun] at hend
  obtain ⟨hheld, hbytes⟩ := Prod.mk.inj (Option.some.inj hend)
  obtain ⟨n, hn, hle⟩ := hok.held ⟨4096, 2 ^ 64 - 1⟩ (hheld ▸ List.mem_singleton_self _)
  rw [hbytes] at hn
  cases hn
  exact absurd hle (by decide)

end CloudHands.Mem
