import Mathlib.Data.Multiset.AddSub
import Mathlib.Data.List.Sort
import Mathlib.Tactic

/-!
# Sorting three or four values by compare and swap

The result is sorted and holds the values it was given, so it is the same for any order
of them.
-/

namespace CloudHands.Lib

variable {α : Type*} [LinearOrder α]

def doSwap (a b : α) : α × α := if a > b then (b, a) else (a, b)

def sort3 (a b c : α) : List α :=
  let (a, b) := doSwap a b
  let (a, c) := doSwap a c
  let (b, c) := doSwap b c
  [a, b, c]

def sort4 (a b c d : α) : List α :=
  let (a, b) := doSwap a b
  let (a, c) := doSwap a c
  let (a, d) := doSwap a d
  let (b, c) := doSwap b c
  let (b, d) := doSwap b d
  let (c, d) := doSwap c d
  [a, b, c, d]

theorem doSwap_eq (a b : α) : doSwap a b = (min a b, max a b) := by
  unfold doSwap
  split_ifs with h
  · rw [min_eq_right h.le, max_eq_left h.le]
  · rw [min_eq_left (not_lt.1 h), max_eq_right (not_lt.1 h)]

theorem doSwap_values {a b a' b' : α} (h : doSwap a b = (a', b')) :
    ({a'} : Multiset α) + {b'} = {a} + {b} := by
  unfold doSwap at h
  split_ifs at h
  · obtain ⟨rfl, rfl⟩ := Prod.ext_iff.1 h
    exact add_comm _ _
  · obtain ⟨rfl, rfl⟩ := Prod.ext_iff.1 h
    rfl

theorem min_le_min_max (a b c : α) : min (min a b) c ≤ min (max a b) (max (min a b) c) :=
  le_min ((min_le_left _ _).trans min_le_max) ((min_le_left _ _).trans (le_max_left _ _))

theorem sort3_sorted (a b c : α) : (sort3 a b c).SortedLE := by
  simp only [sort3, doSwap_eq, List.sortedLE_iff_isChain, List.isChain_cons_cons,
    List.isChain_singleton, and_true]
  exact ⟨min_le_min_max a b c, min_le_max⟩

theorem sort3_perm (a b c : α) : (sort3 a b c).Perm [a, b, c] := by
  rw [← Multiset.coe_eq_coe]
  simp only [sort3, ← Multiset.cons_coe, Multiset.coe_nil, ← Multiset.singleton_add, add_zero]
  rcases h₁ : doSwap a b with ⟨a₁, b₁⟩
  rcases h₂ : doSwap a₁ c with ⟨a₂, c₁⟩
  rcases h₃ : doSwap b₁ c₁ with ⟨b₂, c₂⟩
  calc ({a₂} : Multiset α) + ({b₂} + {c₂}) = {a₂} + ({b₁} + {c₁}) := by rw [doSwap_values h₃]
    _ = {b₁} + ({a₂} + {c₁}) := by abel
    _ = {b₁} + ({a₁} + {c}) := by rw [doSwap_values h₂]
    _ = {a₁} + {b₁} + {c} := by abel
    _ = {a} + ({b} + {c}) := by rw [doSwap_values h₁, add_assoc]

theorem sort4_sorted (a b c d : α) : (sort4 a b c d).SortedLE := by
  simp only [sort4, doSwap_eq, List.sortedLE_iff_isChain, List.isChain_cons_cons,
    List.isChain_singleton, and_true]
  refine ⟨?_, ?_, min_le_max⟩
  all_goals grind

theorem sort4_perm (a b c d : α) : (sort4 a b c d).Perm [a, b, c, d] := by
  rw [← Multiset.coe_eq_coe]
  simp only [sort4, ← Multiset.cons_coe, Multiset.coe_nil, ← Multiset.singleton_add, add_zero]
  rcases h₁ : doSwap a b with ⟨a₁, b₁⟩
  rcases h₂ : doSwap a₁ c with ⟨a₂, c₁⟩
  rcases h₃ : doSwap a₂ d with ⟨a₃, d₁⟩
  rcases h₄ : doSwap b₁ c₁ with ⟨b₂, c₂⟩
  rcases h₅ : doSwap b₂ d₁ with ⟨b₃, d₂⟩
  rcases h₆ : doSwap c₂ d₂ with ⟨c₃, d₃⟩
  calc ({a₃} : Multiset α) + ({b₃} + ({c₃} + {d₃})) =
    {a₃} + ({b₃} + ({c₂} + {d₂})) := by rw [doSwap_values h₆]
    _ = {a₃} + ({c₂} + ({b₃} + {d₂})) := by abel
    _ = {a₃} + ({c₂} + ({b₂} + {d₁})) := by rw [doSwap_values h₅]
    _ = ({b₂} + {c₂}) + ({a₃} + {d₁}) := by abel
    _ = ({b₁} + {c₁}) + ({a₂} + {d}) := by rw [doSwap_values h₄, doSwap_values h₃]
    _ = ({a₂} + {c₁}) + ({b₁} + {d}) := by abel
    _ = ({a₁} + {c}) + ({b₁} + {d}) := by rw [doSwap_values h₂]
    _ = ({a₁} + {b₁}) + ({c} + {d}) := by abel
    _ = {a} + ({b} + ({c} + {d})) := by rw [doSwap_values h₁, add_assoc]

theorem sort3_congr {a b c a' b' c' : α} (h : [a, b, c].Perm [a', b', c']) :
    sort3 a b c = sort3 a' b' c' :=
  (((sort3_perm a b c).trans h).trans (sort3_perm a' b' c').symm).eq_of_sortedLE
    (sort3_sorted a b c) (sort3_sorted a' b' c')

theorem sort4_congr {a b c d a' b' c' d' : α} (h : [a, b, c, d].Perm [a', b', c', d']) :
    sort4 a b c d = sort4 a' b' c' d' :=
  (((sort4_perm a b c d).trans h).trans (sort4_perm a' b' c' d').symm).eq_of_sortedLE
    (sort4_sorted a b c d) (sort4_sorted a' b' c' d')

end CloudHands.Lib
