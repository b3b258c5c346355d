import Mathlib.Order.Interval.Finset.Nat
import Mathlib.Tactic

/-!
# Ranges of addresses

Ranges that do not overlap fit side by side into every range that they are all part of, so that
their sizes add up to at most its size.
-/

namespace CloudHands.Lib

/-- The addresses from `start`, `size` of them. -/
structure Extent where
  start : ℕ
  size : ℕ
deriving DecidableEq, Repr

namespace Extent

def Apart (x y : Extent) : Prop := x.start + x.size ≤ y.start ∨ y.start + y.size ≤ x.start

def Within (x : Extent) (lo hi : ℕ) : Prop := lo ≤ x.start ∧ x.start + x.size ≤ hi

instance (x y : Extent) : Decidable (x.Apart y) :=
  inferInstanceAs (Decidable (x.start + x.size ≤ y.start ∨ y.start + y.size ≤ x.start))

instance (x : Extent) (lo hi : ℕ) : Decidable (x.Within lo hi) :=
  inferInstanceAs (Decidable (lo ≤ x.start ∧ x.start + x.size ≤ hi))

theorem Apart.symm {x y : Extent} (h : x.Apart y) : y.Apart x := Or.symm h

theorem Apart.start_ne {x y : Extent} (h : x.Apart y) (hx : 0 < x.size) (hy : 0 < y.size) :
    x.start ≠ y.start := by
  rcases h with h | h <;> omega

def cover : List Extent → Finset ℕ
  | [] => ∅
  | x :: xs => Finset.Ico x.start (x.start + x.size) ∪ cover xs

theorem cover_subset {xs : List Extent} {lo hi : ℕ} (h : ∀ x ∈ xs, x.Within lo hi) :
    cover xs ⊆ Finset.Ico lo hi := by
  induction xs with
  | nil => exact Finset.empty_subset _
  | cons x xs ih =>
    obtain ⟨⟨hlo, hhi⟩, hrest⟩ := List.forall_mem_cons.1 h
    exact Finset.union_subset (Finset.Ico_subset_Ico hlo hhi) (ih hrest)

theorem disjoint_cover {x : Extent} {xs : List Extent} (h : ∀ y ∈ xs, x.Apart y) :
    Disjoint (Finset.Ico x.start (x.start + x.size)) (cover xs) := by
  induction xs with
  | nil => exact Finset.disjoint_empty_right _
  | cons y ys ih =>
    obtain ⟨hy, hrest⟩ := List.forall_mem_cons.1 h
    refine Finset.disjoint_union_right.2 ⟨?_, ih hrest⟩
    rw [Finset.disjoint_left]
    intro a ha hb
    rw [Finset.mem_Ico] at ha hb
    rcases hy with hy | hy <;> omega

theorem card_cover {xs : List Extent} (h : xs.Pairwise Apart) :
    (cover xs).card = (xs.map size).sum := by
  induction xs with
  | nil => rfl
  | cons x xs ih =>
    obtain ⟨hx, hxs⟩ := List.pairwise_cons.1 h
    rw [cover, Finset.card_union_of_disjoint (disjoint_cover hx), ih hxs, Nat.card_Ico,
      List.map_cons, List.sum_cons, Nat.add_sub_cancel_left]

theorem sum_size_le {xs : List Extent} {lo hi : ℕ} (h : xs.Pairwise Apart)
    (hwithin : ∀ x ∈ xs, x.Within lo hi) : (xs.map size).sum ≤ hi - lo := by
  calc (xs.map size).sum = (cover xs).card := (card_cover h).symm
    _ ≤ (Finset.Ico lo hi).card := Finset.card_le_card (cover_subset hwithin)
    _ = hi - lo := Nat.card_Ico lo hi

end Extent

end CloudHands.Lib
