import CloudHands.Lib.Word

/-!
# Tallies of observations

A tally keeps the number of the observations, the sum of their sizes, and the times of the
first and of the last. Numbers and sums are 64-bit words.
-/

namespace CloudHands.Lib

open CloudHands.Word (add)

structure Observation where
  size : ℕ
  time : ℕ
deriving DecidableEq, Repr

structure Tally where
  packets : ℕ
  bytes : ℕ
  startTime : ℕ
  lastTime : ℕ
deriving DecidableEq, Repr

namespace Tally

def first (o : Observation) : Tally := ⟨1, o.size, o.time, o.time⟩

def observe (t : Tally) (o : Observation) : Tally :=
  { t with packets := add 64 t.packets 1, bytes := add 64 t.bytes o.size, lastTime := o.time }

def total (obs : List Observation) : ℕ := (obs.map (·.size)).sum

structure Counts (t : Tally) (obs : List Observation) : Prop where
  packets : t.packets = obs.length % 2 ^ 64
  bytes : t.bytes = total obs % 2 ^ 64
  startTime : ∀ o ∈ obs.head?, t.startTime = o.time
  lastTime : ∀ o ∈ obs.getLast?, t.lastTime = o.time

variable {t : Tally} {obs : List Observation}

@[simp] theorem total_nil : total [] = 0 := rfl

@[simp] theorem total_append (obs obs' : List Observation) :
    total (obs ++ obs') = total obs + total obs' := by
  simp [total]

@[simp] theorem total_singleton (o : Observation) : total [o] = o.size := by
  simp [total]

theorem Counts.observe (h : Counts t obs) (hne : obs ≠ []) (o : Observation) :
    Counts (t.observe o) (obs ++ [o]) where
  packets := by
    simp only [Tally.observe, add, h.packets, List.length_append, List.length_singleton,
      Nat.mod_add_mod]
  bytes := by
    simp only [Tally.observe, add, h.bytes, total_append, total_singleton, Nat.mod_add_mod]
  startTime o' ho' := by
    rw [List.head?_append_of_ne_nil _ hne] at ho'
    exact h.startTime o' ho'
  lastTime o' ho' := by
    rw [List.getLast?_concat] at ho'
    obtain rfl := Option.some.inj ho'
    rfl

end Tally

end CloudHands.Lib
