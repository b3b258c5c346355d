import Mathlib.Data.List.Nodup
import Mathlib.Tactic

/-!
# Rows with a key

A list of rows of which no two have the same key. A row is found, changed and removed by its key;
a change keeps the key.
-/

namespace CloudHands.Lib.Keyed

variable {α κ : Type*} [DecidableEq κ] (key : α → κ)

def lookup (rows : List α) (k : κ) : Option α := rows.find? fun x => key x = k

def remove (rows : List α) (k : κ) : List α := rows.filter fun x => key x ≠ k

def modify (rows : List α) (k : κ) (f : α → α) : List α :=
  rows.map fun x => if key x = k then f x else x

variable {key} {rows : List α} {k k' : κ} {x : α} {f : α → α}

theorem mem_of_lookup (h : lookup key rows k = some x) : x ∈ rows := List.mem_of_find?_eq_some h

theorem key_of_lookup (h : lookup key rows k = some x) : key x = k := by
  have hx := List.find?_some h
  exact of_decide_eq_true hx

theorem lookup_eq_none : lookup key rows k = none ↔ ∀ x ∈ rows, key x ≠ k := by
  simp [lookup]

theorem lookup_of_mem (hnodup : (rows.map key).Nodup) (hx : x ∈ rows) :
    lookup key rows (key x) = some x := by
  cases hfound : lookup key rows (key x) with
  | none => exact absurd rfl (lookup_eq_none.1 hfound x hx)
  | some y =>
    have heq := List.inj_on_of_nodup_map hnodup (mem_of_lookup hfound) hx (key_of_lookup hfound)
    rw [heq]

theorem lookup_cons_self : lookup key (x :: rows) (key x) = some x :=
  List.find?_cons_of_pos (decide_eq_true rfl)

theorem lookup_cons_of_ne (h : key x ≠ k) : lookup key (x :: rows) k = lookup key rows k :=
  List.find?_cons_of_neg (by simpa using h)

theorem lookup_remove_of_ne (h : k' ≠ k) :
    lookup key (remove key rows k) k' = lookup key rows k' := by
  rw [lookup, remove, List.find?_filter]
  refine List.find?_congr fun x _ => ?_
  by_cases hk : key x = k'
  · simp [hk, h]
  · simp [hk]

theorem sublist_remove : (remove key rows k).Sublist rows := List.filter_sublist

theorem remove_eq_self (h : ∀ x ∈ rows, key x ≠ k) : remove key rows k = rows :=
  List.filter_eq_self.2 (by simpa using h)

theorem mem_remove : x ∈ remove key rows k ↔ x ∈ rows ∧ key x ≠ k := by
  simp [remove]

theorem perm_remove (hnodup : (rows.map key).Nodup) (h : lookup key rows k = some x) :
    rows.Perm (x :: remove key rows k) := by
  induction rows with
  | nil => cases h
  | cons y ys ih =>
    obtain ⟨hfresh, hys⟩ := List.nodup_cons.1 hnodup
    by_cases hy : key y = k
    · have hxy : y = x := by
        subst hy
        exact Option.some.inj (lookup_cons_self.symm.trans h)
      have hrest : ∀ z ∈ ys, key z ≠ k := by
        intro z hz hzk
        exact hfresh (hy.trans hzk.symm ▸ List.mem_map_of_mem hz)
      have hremove : remove key (y :: ys) k = ys := by
        rw [remove, List.filter_cons_of_neg (by simpa using hy)]
        exact remove_eq_self hrest
      rw [hremove, hxy]
    · rw [lookup_cons_of_ne hy] at h
      have hremove : remove key (y :: ys) k = y :: remove key ys k :=
        List.filter_cons_of_pos (by simpa using hy)
      rw [hremove]
      exact ((ih hys h).cons y).trans (List.Perm.swap x y _)

theorem map_modify {β : Type*} (g : α → β) (hg : ∀ x, g (f x) = g x) :
    (modify key rows k f).map g = rows.map g := by
  rw [modify, List.map_map]
  refine List.map_congr_left fun x _ => ?_
  simp only [Function.comp_apply]
  split
  · exact hg x
  · rfl

theorem lookup_modify (hf : ∀ x, key (f x) = key x) :
    lookup key (modify key rows k f) k' = (lookup key rows k').map fun x =>
      if key x = k then f x else x := by
  have hkey : ∀ x, key (if key x = k then f x else x) = key x := by
    intro x
    split
    · exact hf x
    · rfl
  rw [lookup, modify, List.find?_map]
  congr 1
  refine List.find?_congr fun x _ => ?_
  simp [hkey]

theorem mem_modify {y : α} (h : y ∈ modify key rows k f) :
    ∃ x ∈ rows, y = if key x = k then f x else x := by
  obtain ⟨x, hx, rfl⟩ := List.mem_map.1 h
  exact ⟨x, hx, rfl⟩

end CloudHands.Lib.Keyed
