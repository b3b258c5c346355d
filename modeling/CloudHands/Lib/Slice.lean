import Mathlib.Data.List.Basic
import Mathlib.Data.Set.Lattice
import Mathlib.Order.Interval.Set.Basic
import Mathlib.Tactic

/-!
# Slices of a byte stream and covered prefixes

`slice s a b` is the half-open part `[a, b)` of a list. Consecutive slices
concatenate, and a slice of a slice is a slice of the stream. A set of stream
positions has at most one longest covered prefix, which is decided by the
position that follows it.
-/

namespace CloudHands.Slice

variable {α : Type*}

def slice (s : List α) (a b : ℕ) : List α := (s.drop a).take (b - a)

theorem slice_zero (s : List α) (b : ℕ) : slice s 0 b = s.take b := by simp [slice]

theorem slice_length (s : List α) {a b : ℕ} (hb : b ≤ s.length) :
    (slice s a b).length = b - a := by
  simp only [slice, List.length_take, List.length_drop]
  omega

theorem slice_append (s : List α) {a b c : ℕ} (hab : a ≤ b) (hbc : b ≤ c) :
    slice s a b ++ slice s b c = slice s a c := by
  have hc : c - a = (b - a) + (c - b) := by omega
  have hb : b = a + (b - a) := by omega
  simp only [slice]
  rw [hc, List.take_add, List.drop_drop, ← hb]

theorem drop_slice (s : List α) (a b d : ℕ) : (slice s a b).drop d = slice s (a + d) b := by
  simp only [slice, List.drop_take, List.drop_drop]
  congr 1
  omega

theorem take_slice (s : List α) {a b d : ℕ} (h : a + d ≤ b) :
    (slice s a b).take d = slice s a (a + d) := by
  simp only [slice, List.take_take]
  congr 1
  omega

theorem slice_self (s : List α) (a : ℕ) : slice s a a = [] := by simp [slice]

theorem slice_set {s : List α} {a b i : ℕ} (h : b ≤ i) (x : α) :
    slice (s.set i x) a b = slice s a b := by
  rcases Nat.lt_or_ge i a with hlt | hge
  · simp [slice, Nat.sub_eq_zero_of_le (h.trans hlt.le)]
  · have hbound : b - a ≤ i - a := by omega
    simp only [slice, List.drop_set, if_neg (not_lt.2 hge), List.take_set_of_le hbound]

theorem slice_succ {s : List α} {a b : ℕ} (hab : a ≤ b) {x : α} (h : s[b]? = some x) :
    slice s a (b + 1) = slice s a b ++ [x] := by
  have hdrop : (s.drop a)[b - a]? = some x := by
    rw [List.getElem?_drop, Nat.add_sub_cancel' hab]
    exact h
  simp only [slice, Nat.succ_sub hab, List.take_add_one, hdrop, Option.toList_some]

theorem slice_eq_cons {s q : List α} {a b : ℕ} {x : α} (h : slice s a b = x :: q) :
    a < b ∧ s[a]? = some x ∧ slice s (a + 1) b = q := by
  have hlt : a < b := by
    by_contra hge
    simp [slice, Nat.sub_eq_zero_of_le (not_lt.1 hge)] at h
  have hget : s[a]? = some x := by
    have hhead : (slice s a b)[0]? = some x := by simp [h]
    simpa [slice, List.getElem?_take, List.getElem?_drop, Nat.sub_pos_of_lt hlt] using hhead
  refine ⟨hlt, hget, ?_⟩
  rw [← drop_slice, h]
  rfl

theorem isGreatest_prefix_covered {R : Set ℕ} {L n : ℕ} (hn : L ≤ n) (hL : Set.Iio L ⊆ R)
    (hnot : L ∉ R) : IsGreatest {k | k ≤ n ∧ Set.Iio k ⊆ R} L := by
  refine ⟨⟨hn, hL⟩, ?_⟩
  rintro k ⟨-, hk⟩
  by_contra hlt
  exact hnot (hk (Set.mem_Iio.mpr (not_le.mp hlt)))

theorem exists_isGreatest_prefix_covered (R : Set ℕ) (n : ℕ) :
    ∃ k, IsGreatest {k | k ≤ n ∧ Set.Iio k ⊆ R} k := by
  have hne : {k | k ≤ n ∧ Set.Iio k ⊆ R}.Nonempty := ⟨0, by simp⟩
  have hbdd : BddAbove {k | k ≤ n ∧ Set.Iio k ⊆ R} := ⟨n, fun k hk => hk.1⟩
  exact ⟨_, Nat.sSup_mem hne hbdd, fun k hk => le_csSup hbdd hk⟩

end CloudHands.Slice
