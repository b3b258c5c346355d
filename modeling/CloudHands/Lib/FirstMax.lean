import Mathlib.Order.Defs.LinearOrder
import Mathlib.Tactic

/-!
# The first candidate of the highest rank

A scan from left to right keeps the candidate it has, unless the next one has a higher rank.
What it ends with is described by its position, so that the description composes with the part
of the list that is still to come.
-/

namespace CloudHands.Lib

variable {α β κ : Type*} [LinearOrder κ]

/-- Position `k` holds the first candidate of the highest rank. -/
structure FirstMax (p : α → Prop) (rank : α → κ) (xs : List α) (k : ℕ) : Prop where
  candidate : ∃ x, xs[k]? = some x ∧ p x ∧
    ∀ j y, xs[j]? = some y → p y → rank y ≤ rank x ∧ (j < k → rank y < rank x)

/-- What the scan has found in `xs`. -/
def Best (p : α → Prop) (rank : α → κ) (xs : List α) : Option ℕ → Prop
  | none => ∀ x ∈ xs, ¬ p x
  | some k => FirstMax p rank xs k

variable {p : α → Prop} {rank : α → κ} {xs : List α} {x : α}

theorem best_nil : Best p rank [] none := by
  intro x hx
  cases hx

theorem getElem?_snoc {j : ℕ} {y : α} (h : (xs ++ [x])[j]? = some y) :
    xs[j]? = some y ∨ (j = xs.length ∧ y = x) := by
  rcases lt_trichotomy j xs.length with hj | hj | hj
  · rw [List.getElem?_append_left hj] at h
    exact .inl h
  · subst hj
    rw [List.getElem?_append_right le_rfl] at h
    simp only [Nat.sub_self, List.getElem?_cons_zero, Option.some.injEq] at h
    exact .inr ⟨rfl, h.symm⟩
  · rw [List.getElem?_eq_none (by simp; omega)] at h
    cases h

theorem getElem?_snoc_of_some {j : ℕ} {y : α} (h : xs[j]? = some y) :
    (xs ++ [x])[j]? = some y := by
  obtain ⟨hj, rfl⟩ := List.getElem?_eq_some_iff.1 h
  rw [List.getElem?_append_left hj, List.getElem?_eq_getElem hj]

theorem Best.skip {r : Option ℕ} (h : Best p rank xs r) (hx : ¬ p x) :
    Best p rank (xs ++ [x]) r := by
  cases r with
  | none =>
    intro y hy
    rcases List.mem_append.1 hy with hy | hy
    · exact h y hy
    · rw [List.mem_singleton.1 hy]
      exact hx
  | some k =>
    obtain ⟨⟨b, hb, hpb, hmax⟩⟩ := h
    refine ⟨⟨b, getElem?_snoc_of_some hb, hpb, fun j y hy hpy => ?_⟩⟩
    rcases getElem?_snoc hy with hy | ⟨-, rfl⟩
    · exact hmax j y hy hpy
    · exact absurd hpy hx

theorem Best.first (h : Best p rank xs none) (hx : p x) :
    Best p rank (xs ++ [x]) (some xs.length) := by
  refine ⟨⟨x, by simp, hx, fun j y hy hpy => ?_⟩⟩
  rcases getElem?_snoc hy with hy | ⟨rfl, rfl⟩
  · exact absurd hpy (h y (List.mem_of_getElem? hy))
  · exact ⟨le_rfl, fun hlt => absurd hlt (lt_irrefl _)⟩

theorem Best.higher {k : ℕ} {b : α} (h : Best p rank xs (some k)) (hb : xs[k]? = some b)
    (hx : p x) (hrank : rank b < rank x) : Best p rank (xs ++ [x]) (some xs.length) := by
  obtain ⟨⟨b', hb', -, hmax⟩⟩ := h
  obtain rfl : b' = b := Option.some.inj (hb'.symm.trans hb)
  refine ⟨⟨x, by simp, hx, fun j y hy hpy => ?_⟩⟩
  rcases getElem?_snoc hy with hy | ⟨rfl, rfl⟩
  · have hlt := (hmax j y hy hpy).1.trans_lt hrank
    exact ⟨hlt.le, fun _ => hlt⟩
  · exact ⟨le_rfl, fun hlt => absurd hlt (lt_irrefl _)⟩

theorem Best.keep {k : ℕ} {b : α} (h : Best p rank xs (some k)) (hb : xs[k]? = some b)
    (hrank : ¬ rank b < rank x) : Best p rank (xs ++ [x]) (some k) := by
  obtain ⟨⟨b', hb', hpb, hmax⟩⟩ := h
  obtain rfl : b' = b := Option.some.inj (hb'.symm.trans hb)
  refine ⟨⟨b', getElem?_snoc_of_some hb, hpb, fun j y hy hpy => ?_⟩⟩
  rcases getElem?_snoc hy with hy | ⟨rfl, rfl⟩
  · exact hmax j y hy hpy
  · obtain ⟨hk, -⟩ := List.getElem?_eq_some_iff.1 hb
    exact ⟨not_lt.1 hrank, fun hlt => absurd hlt (by omega)⟩

theorem best_map_iff (f : β → α) (ys : List β) (r : Option ℕ) :
    Best p rank (ys.map f) r ↔ Best (fun y => p (f y)) (fun y => rank (f y)) ys r := by
  cases r with
  | none => simp [Best]
  | some k =>
    constructor
    · rintro ⟨⟨x, hx, hpx, hmax⟩⟩
      rw [List.getElem?_map, Option.map_eq_some_iff] at hx
      obtain ⟨y, hy, rfl⟩ := hx
      exact ⟨⟨y, hy, hpx, fun j z hz => hmax j (f z) (by simp [hz])⟩⟩
    · rintro ⟨⟨y, hy, hpy, hmax⟩⟩
      refine ⟨⟨f y, by simp [hy], hpy, fun j z hz hpz => ?_⟩⟩
      rw [List.getElem?_map, Option.map_eq_some_iff] at hz
      obtain ⟨z, hz, rfl⟩ := hz
      exact hmax j z hz hpz

/-- Where no candidate has a higher rank than `top`, the scan ends with the first candidate of
that rank, when there is one. -/
theorem Best.find?_eq [DecidablePred p] {r : Option ℕ} (h : Best p rank xs r) {top : κ}
    (htop : ∀ x ∈ xs, p x → rank x ≤ top) :
    xs.find? (fun x => p x ∧ rank x = top) = (r.bind (xs[·]?)).filter fun x => rank x = top := by
  cases r with
  | none =>
    refine List.find?_eq_none.2 fun x hx hp => ?_
    exact h x hx (of_decide_eq_true hp).1
  | some k =>
    obtain ⟨⟨b, hb, hpb, hmax⟩⟩ := h
    rw [Option.bind_some, hb]
    by_cases hrank : rank b = top
    · rw [Option.filter_some_pos (by simpa using hrank)]
      obtain ⟨hk, hbk⟩ := List.getElem?_eq_some_iff.1 hb
      refine List.find?_eq_some_iff_getElem.2 ⟨by simp [hpb, hrank], k, hk, hbk, fun j hj => ?_⟩
      have hjk : xs[j]? = some xs[j] := List.getElem?_eq_getElem (hj.trans hk)
      by_contra hnot
      have hcand : p xs[j] ∧ rank xs[j] = top := by simpa using hnot
      exact absurd (hcand.2.trans hrank.symm) ((hmax j _ hjk hcand.1).2 hj).ne
    · rw [Option.filter_some_neg (by simpa using hrank)]
      refine List.find?_eq_none.2 fun x hx hp => ?_
      obtain ⟨hpx, hrankx⟩ := of_decide_eq_true hp
      obtain ⟨j, hj, rfl⟩ := List.getElem_of_mem hx
      have hle := (hmax j _ (List.getElem?_eq_getElem hj) hpx).1
      rw [hrankx] at hle
      exact hrank (le_antisymm (htop b (List.mem_of_getElem? hb) hpb) hle)

end CloudHands.Lib
