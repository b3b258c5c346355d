import Mathlib.Tactic

/-!
# Cutting a stream into lines

A stream arrives in pieces; a line ends at its terminator, and what follows the last
terminator is held until the next piece.
-/

namespace CloudHands.Lib

variable {α : Type*} [DecidableEq α]

def cutLines (t : α) : List α → List (List α) × List α
  | [] => ([], [])
  | b :: s =>
    let (lines, rest) := cutLines t s
    if b = t then ([] :: lines, rest)
    else
      match lines with
      | [] => ([], b :: rest)
      | line :: lines => ((b :: line) :: lines, rest)

@[simp] theorem cutLines_nil (t : α) : cutLines t [] = ([], []) := rfl

theorem cutLines_of_not_mem {t : α} {s : List α} (h : t ∉ s) : cutLines t s = ([], s) := by
  induction s with
  | nil => rfl
  | cons b s ih =>
    have hb : b ≠ t := fun heq => h (by simp [heq])
    have hs : t ∉ s := fun hmem => h (by simp [hmem])
    simp [cutLines, ih hs, hb]

theorem cutLines_line {t : α} {line : List α} (h : t ∉ line) (s : List α) :
    cutLines t (line ++ t :: s) = (line :: (cutLines t s).1, (cutLines t s).2) := by
  induction line with
  | nil => simp [cutLines]
  | cons b line ih =>
    have hb : b ≠ t := fun heq => h (by simp [heq])
    have hline : t ∉ line := fun hmem => h (by simp [hmem])
    simp [cutLines, ih hline, hb]

theorem not_mem_cutLines_rest (t : α) (s : List α) : t ∉ (cutLines t s).2 := by
  induction s with
  | nil => simp
  | cons b s ih =>
    by_cases hb : b = t
    · simpa [cutLines, hb] using ih
    · cases hs : (cutLines t s).1 with
      | nil => simpa [cutLines, hb, hs, Ne.symm hb] using ih
      | cons line lines => simpa [cutLines, hb, hs] using ih

theorem line_or_not_mem (t : α) (s : List α) :
    (∃ line rest, t ∉ line ∧ s = line ++ t :: rest) ∨ t ∉ s := by
  by_cases h : t ∈ s
  · obtain ⟨line, rest, hs, hline⟩ := List.eq_append_cons_of_mem h
    exact .inl ⟨line, rest, hline, hs⟩
  · exact .inr h

theorem cutLines_append (t : α) (s s' : List α) :
    cutLines t (s ++ s') =
      ((cutLines t s).1 ++ (cutLines t ((cutLines t s).2 ++ s')).1,
        (cutLines t ((cutLines t s).2 ++ s')).2) := by
  induction hn : s.length using Nat.strong_induction_on generalizing s with
  | _ n ih =>
    rcases line_or_not_mem t s with ⟨line, rest, hline, rfl⟩ | hmem
    · have hlen : rest.length < n := by
        simp only [List.length_append, List.length_cons] at hn
        omega
      rw [List.append_assoc, List.cons_append, cutLines_line hline, cutLines_line hline,
        ih _ hlen rest rfl]
      rfl
    · simp [cutLines_of_not_mem hmem]

/-- The lines as `f` gives them, and what follows them. -/
def linesWith {β : Type*} (f : List α → β) (t : α) (s : List α) : List β × List α :=
  ((cutLines t s).1.map f, (cutLines t s).2)

theorem linesWith_of_not_mem {β : Type*} (f : List α → β) {t : α} {s : List α} (h : t ∉ s) :
    linesWith f t s = ([], s) := by
  rw [linesWith, cutLines_of_not_mem h]
  rfl

theorem linesWith_append {β : Type*} (f : List α → β) (t : α) (s s' : List α) :
    linesWith f t (s ++ s') =
      ((linesWith f t s).1 ++ (linesWith f t ((linesWith f t s).2 ++ s')).1,
        (linesWith f t ((linesWith f t s).2 ++ s')).2) := by
  rw [linesWith, cutLines_append, List.map_append]
  rfl

theorem idxOf?_line {t : α} {line : List α} (h : t ∉ line) (rest : List α) :
    (line ++ t :: rest).idxOf? t = some line.length := by
  induction line with
  | nil => simp [List.idxOf?_cons]
  | cons b line ih =>
    have hb : b ≠ t := fun heq => h (by simp [heq])
    have hline : t ∉ line := fun hmem => h (by simp [hmem])
    simp [List.idxOf?_cons, hb, ih hline]

theorem cutLines_subset (t : α) (s : List α) :
    (∀ line ∈ (cutLines t s).1, line ⊆ s) ∧ (cutLines t s).2 ⊆ s := by
  induction hn : s.length using Nat.strong_induction_on generalizing s with
  | _ n ih =>
    rcases line_or_not_mem t s with ⟨line, rest, hline, rfl⟩ | hmem
    · have hlen : rest.length < n := by
        simp only [List.length_append, List.length_cons] at hn
        omega
      obtain ⟨hlines, hrest⟩ := ih _ hlen rest rfl
      have hbehind : rest ⊆ line ++ t :: rest := fun b hb => by simp [hb]
      rw [cutLines_line hline]
      refine ⟨List.forall_mem_cons.2 ⟨List.subset_append_left _ _, fun line' h => ?_⟩, ?_⟩
      · exact List.Subset.trans (hlines line' h) hbehind
      · exact List.Subset.trans hrest hbehind
    · rw [cutLines_of_not_mem hmem]
      exact ⟨fun _ h => absurd h List.not_mem_nil, List.Subset.refl s⟩

theorem not_mem_of_mem_cutLines {t : α} {s line : List α} (h : line ∈ (cutLines t s).1) :
    t ∉ line := by
  induction hn : s.length using Nat.strong_induction_on generalizing s with
  | _ n ih =>
    rcases line_or_not_mem t s with ⟨first, rest, hfirst, rfl⟩ | hmem
    · have hlen : rest.length < n := by
        simp only [List.length_append, List.length_cons] at hn
        omega
      rw [cutLines_line hfirst, List.mem_cons] at h
      rcases h with rfl | hrest
      · exact hfirst
      · exact ih _ hlen hrest rfl
    · simp [cutLines_of_not_mem hmem] at h

theorem cutLines_flatMap {t : α} {lines : List (List α)} (h : ∀ line ∈ lines, t ∉ line) :
    cutLines t (lines.flatMap (· ++ [t])) = (lines, []) := by
  induction lines with
  | nil => rfl
  | cons line lines ih =>
    obtain ⟨hline, hlines⟩ := List.forall_mem_cons.1 h
    rw [List.flatMap_cons, List.append_assoc, List.singleton_append, cutLines_line hline, ih hlines]

end CloudHands.Lib
