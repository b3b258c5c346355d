import Mathlib.Tactic

/-!
# Filling a store with whole pieces

A store takes pieces until it has as many elements as it wants, and the last of them whole. It
has exactly that many when a piece ends there.
-/

namespace CloudHands.Lib

variable {α : Type*}

def fill (want : ℕ) (store : List α) : List (List α) → List α × List (List α)
  | [] => (store, [])
  | piece :: pieces =>
    if want ≤ store.length then (store, piece :: pieces) else fill want (store ++ piece) pieces

/-- The piece that reaches `want` behind `before` elements ends at `n`. -/
def CutAt (before want n : ℕ) (pieces : List (List α)) : Prop :=
  ∀ pre piece post, pieces = pre ++ piece :: post →
    before + pre.flatten.length < want → want ≤ before + pre.flatten.length + piece.length →
      before + pre.flatten.length + piece.length = n

theorem cutAt_cons {before want n : ℕ} {piece : List α} {pieces : List (List α)} :
    CutAt before want n (piece :: pieces) ↔
      (before < want → want ≤ before + piece.length → before + piece.length = n) ∧
        CutAt (before + piece.length) want n pieces := by
  constructor
  · intro h
    refine ⟨h [] piece pieces rfl, fun pre piece' post heq hlt hle => ?_⟩
    have hfirst := h (piece :: pre) piece' post (by rw [heq, List.cons_append])
    rw [List.flatten_cons, List.length_append, ← add_assoc] at hfirst
    exact hfirst hlt hle
  · rintro ⟨hfirst, hrest⟩ pre piece' post heq hlt hle
    cases pre with
    | nil =>
      obtain ⟨rfl, -⟩ := List.cons.inj heq
      exact hfirst hlt hle
    | cons first pre =>
      obtain ⟨rfl, heq'⟩ := List.cons.inj heq
      rw [List.flatten_cons, List.length_append, ← add_assoc] at hlt hle ⊢
      exact hrest pre piece' post heq' hlt hle

theorem cutAt_of_le {before want n : ℕ} (h : want ≤ before) (pieces : List (List α)) :
    CutAt before want n pieces :=
  fun _ _ _ _ hlt => absurd hlt (not_lt.2 (h.trans (Nat.le_add_right _ _)))

theorem fill_append (want : ℕ) (store : List α) (pieces : List (List α)) :
    (fill want store pieces).1 ++ (fill want store pieces).2.flatten = store ++ pieces.flatten := by
  induction pieces generalizing store with
  | nil => rfl
  | cons piece pieces ih =>
    rw [fill]
    split
    · rfl
    · rw [ih, List.append_assoc, List.flatten_cons]

theorem fill_of_lt {want : ℕ} {store : List α} {pieces : List (List α)}
    (h : (fill want store pieces).1.length < want) : (fill want store pieces).2 = [] := by
  induction pieces generalizing store with
  | nil => rfl
  | cons piece pieces ih =>
    rw [fill] at h ⊢
    split
    · rename_i hle
      rw [if_pos hle] at h
      exact absurd h (not_lt.2 hle)
    · rename_i hlt
      rw [if_neg hlt] at h
      exact ih h

theorem fill_cutAt (want n : ℕ) (store : List α) (pieces : List (List α)) :
    (want ≤ (fill want store pieces).1.length → (fill want store pieces).1.length = n) ↔
      (want ≤ store.length → store.length = n) ∧ CutAt store.length want n pieces := by
  induction pieces generalizing store with
  | nil =>
    have hnone : CutAt store.length want n ([] : List (List α)) := by
      intro pre piece post heq
      simp at heq
    exact (and_iff_left hnone).symm
  | cons piece pieces ih =>
    rw [fill]
    split
    · rename_i hle
      exact (and_iff_left (cutAt_of_le hle _)).symm
    · rename_i hlt
      rw [ih, List.length_append, cutAt_cons]
      have hstore : want ≤ store.length → store.length = n := fun hle => absurd hle hlt
      have hopen := not_le.1 hlt
      tauto

/-- The store has the first `n` elements and the rest is left exactly when a piece ends there. -/
theorem fill_exact_iff {want n : ℕ} (hwant : want ≤ n) (hzero : want = 0 → n = 0)
    (pieces : List (List α)) :
    ((fill want [] pieces).1 = pieces.flatten.take n ∧
      (fill want [] pieces).2.flatten = pieces.flatten.drop n ∧
        ((fill want [] pieces).1.length < want ↔ pieces.flatten.length < n)) ↔
      CutAt 0 want n pieces := by
  have hcut := fill_cutAt want n [] pieces
  have hempty : want ≤ ([] : List α).length → ([] : List α).length = n := fun hle =>
    (hzero (Nat.le_zero.1 hle)).symm
  rw [List.length_nil] at hempty hcut
  rw [and_iff_right hempty] at hcut
  rw [← hcut]
  have hall := fill_append want [] pieces
  rw [List.nil_append] at hall
  set r := fill want [] pieces
  constructor
  · rintro ⟨hfront, -, hopen⟩ hle
    have hlen : n ≤ pieces.flatten.length := by
      by_contra hlt
      exact absurd (hopen.2 (not_le.1 hlt)) (not_lt.2 hle)
    rw [hfront, List.length_take, min_eq_left hlen]
  · intro hexact
    by_cases hle : want ≤ r.1.length
    · have hn := hexact hle
      have hlen : n ≤ pieces.flatten.length := by
        rw [← hall, List.length_append]
        omega
      refine ⟨?_, ?_, iff_of_false (not_lt.2 hle) (not_lt.2 hlen)⟩
      · rw [← hall, List.take_left' hn]
      · rw [← hall, List.drop_left' hn]
    · have hnone : r.2 = [] := fill_of_lt (not_le.1 hle)
      rw [hnone, List.flatten_nil, List.append_nil] at hall
      have hshort : pieces.flatten.length < n := by
        rw [← hall]
        omega
      refine ⟨?_, ?_, iff_of_true (not_le.1 hle) hshort⟩
      · rw [List.take_of_length_le hshort.le, hall]
      · rw [hnone, List.drop_eq_nil_of_le hshort.le]
        rfl

end CloudHands.Lib
