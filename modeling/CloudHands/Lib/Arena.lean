import Mathlib.Data.List.Nodup
import Mathlib.Tactic

/-!
# Objects with a lifetime

An arena hands out objects under numbers that are never used again. Reading, writing or
freeing an object that is not alive has no result, so that a computation with a result has
followed no stale reference and has freed nothing twice.
-/

namespace CloudHands.Lib

variable {α : Type*}

/-- Every number below `next` belongs to a living object or was freed, once. -/
structure Arena (α : Type*) where
  cell : ℕ → Option α
  next : ℕ
  freed : List ℕ
  beyond : ∀ i, next ≤ i → cell i = none
  nodup : freed.Nodup
  mem_freed : ∀ i, i ∈ freed ↔ i < next ∧ cell i = none

namespace Arena

def empty : Arena α where
  cell _ := none
  next := 0
  freed := []
  beyond _ _ := rfl
  nodup := List.nodup_nil
  mem_freed := by simp

instance : Inhabited (Arena α) := ⟨empty⟩

theorem lt_next {a : Arena α} {i : ℕ} {x : α} (h : a.cell i = some x) : i < a.next := by
  by_contra hle
  rw [a.beyond i (not_lt.1 hle)] at h
  cases h

theorem alloc_beyond (a : Arena α) (x : α) (i : ℕ) (h : a.next + 1 ≤ i) :
    Function.update a.cell a.next (some x) i = none := by
  rw [Function.update_of_ne (by omega)]
  exact a.beyond i (by omega)

theorem alloc_mem_freed (a : Arena α) (x : α) (i : ℕ) :
    i ∈ a.freed ↔ i < a.next + 1 ∧ Function.update a.cell a.next (some x) i = none := by
  rw [a.mem_freed]
  by_cases hi : i = a.next
  · subst hi
    simp
  · rw [Function.update_of_ne hi]
    exact and_congr_left fun _ => by omega

/-- A new object; its number is `a.next`. -/
def alloc (a : Arena α) (x : α) : Arena α where
  cell := Function.update a.cell a.next (some x)
  next := a.next + 1
  freed := a.freed
  beyond := a.alloc_beyond x
  nodup := a.nodup
  mem_freed := a.alloc_mem_freed x

theorem write_beyond (a : Arena α) {j : ℕ} {y : α} (h : a.cell j = some y) (x : α) (i : ℕ)
    (hi : a.next ≤ i) : Function.update a.cell j (some x) i = none := by
  have hj := lt_next h
  rw [Function.update_of_ne (by omega)]
  exact a.beyond i hi

theorem write_mem_freed (a : Arena α) {j : ℕ} {y : α} (h : a.cell j = some y) (x : α) (i : ℕ) :
    i ∈ a.freed ↔ i < a.next ∧ Function.update a.cell j (some x) i = none := by
  rw [a.mem_freed]
  by_cases hi : i = j
  · subst hi
    simp [h]
  · rw [Function.update_of_ne hi]

def write (a : Arena α) (j : ℕ) (x : α) : Option (Arena α) :=
  match h : a.cell j with
  | none => none
  | some _ =>
    some
      { a with
        cell := Function.update a.cell j (some x)
        beyond := a.write_beyond h x
        mem_freed := a.write_mem_freed h x }

theorem free_beyond (a : Arena α) (j i : ℕ) (hi : a.next ≤ i) :
    Function.update a.cell j none i = none := by
  rw [Function.update_apply, a.beyond i hi]
  split <;> rfl

theorem free_nodup (a : Arena α) {j : ℕ} {y : α} (h : a.cell j = some y) :
    (a.freed ++ [j]).Nodup := by
  rw [List.nodup_append]
  refine ⟨a.nodup, List.nodup_singleton j, ?_⟩
  rintro i hi j hj rfl
  obtain rfl := List.mem_singleton.1 hj
  rw [((a.mem_freed i).1 hi).2] at h
  cases h

theorem free_mem_freed (a : Arena α) {j : ℕ} {y : α} (h : a.cell j = some y) (i : ℕ) :
    i ∈ a.freed ++ [j] ↔ i < a.next ∧ Function.update a.cell j none i = none := by
  rw [List.mem_append, List.mem_singleton, a.mem_freed]
  by_cases hi : i = j
  · subst hi
    simp [lt_next h]
  · simp [hi]

def free (a : Arena α) (j : ℕ) : Option (Arena α) :=
  match h : a.cell j with
  | none => none
  | some _ =>
    some
      { a with
        cell := Function.update a.cell j none
        freed := a.freed ++ [j]
        beyond := a.free_beyond j
        nodup := a.free_nodup h
        mem_freed := a.free_mem_freed h }

@[simp] theorem alloc_cell (a : Arena α) (x : α) :
    (a.alloc x).cell = Function.update a.cell a.next (some x) := rfl

@[simp] theorem alloc_next (a : Arena α) (x : α) : (a.alloc x).next = a.next + 1 := rfl

theorem ne_next {a : Arena α} {i : ℕ} {x : α} (h : a.cell i = some x) : i ≠ a.next :=
  (lt_next h).ne

theorem alloc_cell_of_some {a : Arena α} {i : ℕ} {x : α} (h : a.cell i = some x) (y : α) :
    (a.alloc y).cell i = some x := by
  rw [alloc_cell, Function.update_of_ne (ne_next h), h]

theorem write_eq {a : Arena α} {j : ℕ} {y : α} (h : a.cell j = some y) (x : α) :
    ∃ a', a.write j x = some a' ∧ a'.cell = Function.update a.cell j (some x) ∧
      a'.next = a.next ∧ a'.freed = a.freed := by
  unfold write
  split
  · rename_i hnone
    rw [hnone] at h
    cases h
  · exact ⟨_, rfl, rfl, rfl, rfl⟩

theorem write_of_none {a : Arena α} {j : ℕ} (h : a.cell j = none) (x : α) : a.write j x = none := by
  unfold write
  split
  · rfl
  · rename_i hsome
    rw [h] at hsome
    cases hsome

theorem free_eq {a : Arena α} {j : ℕ} {y : α} (h : a.cell j = some y) :
    ∃ a', a.free j = some a' ∧ a'.cell = Function.update a.cell j none ∧ a'.next = a.next ∧
      a'.freed = a.freed ++ [j] := by
  unfold free
  split
  · rename_i hnone
    rw [hnone] at h
    cases h
  · exact ⟨_, rfl, rfl, rfl, rfl⟩

theorem free_of_none {a : Arena α} {j : ℕ} (h : a.cell j = none) : a.free j = none := by
  unfold free
  split
  · rfl
  · rename_i hsome
    rw [h] at hsome
    cases hsome

end Arena

end CloudHands.Lib
