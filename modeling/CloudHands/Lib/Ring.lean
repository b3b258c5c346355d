import Mathlib.Data.List.Basic
import Mathlib.Data.Nat.ModEq
import Mathlib.Logic.Function.Basic

/-!
# A queue in a ring of slots

The `k`-th element of the queue stands in slot `(pos + k) % count`. The relation `P`
says when a slot holds an element; slots outside the queue are unrestricted.
-/

namespace CloudHands.Lib

variable {α β : Type*}

/-- The slots from `pos` on hold the elements of the queue. -/
structure RingHolds (P : β → α → Prop) (count : ℕ) (slots : ℕ → β) (pos : ℕ) (q : List α) :
    Prop where
  length_le : q.length ≤ count
  pos_lt : 0 < count → pos < count
  holds : ∀ k a, q[k]? = some a → P (slots ((pos + k) % count)) a

theorem slot_injective {count pos i j : ℕ} (hi : i < count) (hj : j < count)
    (h : (pos + i) % count = (pos + j) % count) : i = j := by
  have hmod : i ≡ j [MOD count] := Nat.ModEq.add_left_cancel' pos h
  have heq : i % count = j % count := hmod
  rwa [Nat.mod_eq_of_lt hi, Nat.mod_eq_of_lt hj] at heq

namespace RingHolds

variable {P : β → α → Prop} {count pos : ℕ} {slots : ℕ → β} {q : List α}

theorem nil (P : β → α → Prop) (count : ℕ) (slots : ℕ → β) : RingHolds P count slots 0 [] :=
  ⟨by simp, fun h => h, by simp⟩

theorem update_back (h : RingHolds P count slots pos q) (hspace : q.length < count) (b : β) :
    RingHolds P count (Function.update slots ((pos + q.length) % count) b) pos q := by
  refine ⟨h.length_le, h.pos_lt, fun k a hk => ?_⟩
  have hlt : k < q.length := (List.getElem?_eq_some_iff.1 hk).1
  have hne : (pos + k) % count ≠ (pos + q.length) % count := fun heq =>
    absurd (slot_injective (by omega) hspace heq) (by omega)
  rw [Function.update_of_ne hne]
  exact h.holds k a hk

theorem push (h : RingHolds P count slots pos q) (hspace : q.length < count) {a : α}
    (ha : P (slots ((pos + q.length) % count)) a) : RingHolds P count slots pos (q ++ [a]) := by
  refine ⟨by simp; omega, h.pos_lt, fun k c hk => ?_⟩
  rcases Nat.lt_or_ge k q.length with hlt | hge
  · rw [List.getElem?_append_left hlt] at hk
    exact h.holds k c hk
  · rw [List.getElem?_append_right hge] at hk
    obtain ⟨hzero, rfl⟩ : k - q.length = 0 ∧ a = c := by
      cases hsub : k - q.length with
      | zero => simpa [hsub] using hk
      | succ n => simp [hsub] at hk
    rwa [show k = q.length by omega]

theorem front {a : α} {rest : List α} (h : RingHolds P count slots pos (a :: rest)) :
    P (slots pos) a := by
  have hcount : 0 < count := Nat.lt_of_lt_of_le (by simp) h.length_le
  have hfront := h.holds 0 a rfl
  rwa [Nat.add_zero, Nat.mod_eq_of_lt (h.pos_lt hcount)] at hfront

theorem pop {a : α} {rest : List α} (h : RingHolds P count slots pos (a :: rest)) :
    RingHolds P count slots ((pos + 1) % count) rest := by
  have hle := h.length_le
  rw [List.length_cons] at hle
  refine ⟨by omega, fun hcount => Nat.mod_lt _ hcount, fun k c hk => ?_⟩
  have hnext := h.holds (k + 1) c (by simpa using hk)
  rwa [show pos + (k + 1) = pos + 1 + k by omega, ← Nat.mod_add_mod] at hnext

end RingHolds

end CloudHands.Lib
