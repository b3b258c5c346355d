import Mathlib.Tactic

/-!
# Runs of a step function that may have no result

A step has a result only where it is used as its contract says. A condition on the steps of a run
looks at the state before each step.
-/

namespace CloudHands.Lib

variable {S A : Type*}

def runFrom (step : S → A → Option S) : S → List A → Option S
  | s, [] => some s
  | s, a :: as => (step s a).bind fun s' => runFrom step s' as

def Follows (step : S → A → Option S) (P : S → A → Prop) : S → List A → Prop
  | _, [] => True
  | s, a :: as => P s a ∧ ∀ s', step s a = some s' → Follows step P s' as

variable {step : S → A → Option S} {P : S → A → Prop} {s : S} {as : List A}

instance decidableFollows [∀ s a, Decidable (P s a)] : ∀ s as, Decidable (Follows step P s as)
  | _, [] => inferInstanceAs (Decidable True)
  | s, a :: as =>
    match h : step s a with
    | none => decidable_of_iff (P s a) ⟨fun hP => ⟨hP, by simp [h]⟩, And.left⟩
    | some s' =>
      have := decidableFollows s' as
      decidable_of_iff (P s a ∧ Follows step P s' as) (by simp [Follows, h])

theorem Follows.run (inv : S → Prop)
    (hstep : ∀ {s a}, inv s → P s a → ∃ s', step s a = some s' ∧ inv s') (hs : inv s)
    (h : Follows step P s as) : ∃ s', runFrom step s as = some s' ∧ inv s' := by
  induction as generalizing s with
  | nil => exact ⟨s, rfl, hs⟩
  | cons a as ih =>
    obtain ⟨s₁, hs₁, hinv⟩ := hstep hs h.1
    obtain ⟨s', hrun, hinv'⟩ := ih hinv (h.2 s₁ hs₁)
    refine ⟨s', ?_, hinv'⟩
    rw [runFrom, hs₁]
    exact hrun

theorem Follows.simulates {T : Type*} {spec : T → A → T} {t : T} (agrees : S → T → Prop)
    (h : Follows step P s as) (hs : agrees s t)
    (hstep : ∀ {s t a}, agrees s t → P s a → ∃ s', step s a = some s' ∧ agrees s' (spec t a)) :
    ∃ s', runFrom step s as = some s' ∧ agrees s' (as.foldl spec t) := by
  induction as generalizing s t with
  | nil => exact ⟨s, rfl, hs⟩
  | cons a as ih =>
    obtain ⟨s₁, hs₁, hagrees⟩ := hstep hs h.1
    obtain ⟨s', hrun, hagrees'⟩ := ih (h.2 s₁ hs₁) hagrees
    refine ⟨s', ?_, hagrees'⟩
    rw [runFrom, hs₁]
    exact hrun

theorem follows_iff_good {T : Type*} (spec : T → A → T) {t : T} (agrees good : S → T → Prop)
    (hgood : ∀ {s t}, agrees s t → good s t) (hs : agrees s t)
    (hstep : ∀ {s t a}, agrees s t → P s a → ∃ s', step s a = some s' ∧ agrees s' (spec t a))
    (hbad : ∀ {s t a s'}, agrees s t → step s a = some s' → good s' (spec t a) → P s a) :
    (∀ pre, pre <+: as → ∃ s', runFrom step s pre = some s' ∧ good s' (pre.foldl spec t)) ↔
      Follows step P s as := by
  induction as generalizing s t with
  | nil =>
    refine ⟨fun _ => trivial, fun _ pre hpre => ?_⟩
    obtain rfl := List.prefix_nil.1 hpre
    exact ⟨s, rfl, hgood hs⟩
  | cons a as ih =>
    constructor
    · intro hpre
      obtain ⟨s₁, hs₁, hgood₁⟩ := hpre [a] (List.prefix_append [a] as)
      have hstep₁ : step s a = some s₁ := by simpa [runFrom] using hs₁
      have hP := hbad hs hstep₁ hgood₁
      refine ⟨hP, fun s' hs' => ?_⟩
      obtain ⟨s₂, hs₂, hagrees⟩ := hstep hs hP
      obtain rfl := Option.some.inj (hs₂.symm.trans hs')
      refine (ih hagrees).1 fun pre hpre' => ?_
      obtain ⟨s₃, hrun, hgood₃⟩ := hpre (a :: pre) (List.cons_prefix_cons.2 ⟨rfl, hpre'⟩)
      rw [runFrom, hs', Option.bind_some] at hrun
      exact ⟨s₃, hrun, hgood₃⟩
    · rintro ⟨hP, hrest⟩ pre hpre
      obtain ⟨s₁, hs₁, hagrees⟩ := hstep hs hP
      cases pre with
      | nil => exact ⟨s, rfl, hgood hs⟩
      | cons b pre =>
        obtain ⟨rfl, hpre'⟩ := List.cons_prefix_cons.1 hpre
        obtain ⟨s', hrun, hgood'⟩ := (ih hagrees).2 (hrest s₁ hs₁) pre hpre'
        exact ⟨s', by rw [runFrom, hs₁]; exact hrun, hgood'⟩

theorem good_iff_follows (step : S → A → Option S) (allows ok : S → A → Prop) (inv good : S → Prop)
    (hgood : ∀ {s}, inv s → good s)
    (hstep : ∀ {s a}, inv s → allows s a → ok s a → ∃ s', step s a = some s' ∧ inv s')
    (hbad : ∀ {s a s'}, inv s → allows s a → step s a = some s' → good s' → ok s a) (hs : inv s)
    (hallows : Follows step allows s as) :
    (∀ done, done <+: as → ∃ s', runFrom step s done = some s' ∧ good s') ↔
      Follows step ok s as := by
  induction as generalizing s with
  | nil =>
    refine ⟨fun _ => trivial, fun _ done hdone => ?_⟩
    rw [List.prefix_nil.1 hdone]
    exact ⟨s, rfl, hgood hs⟩
  | cons a as ih =>
    constructor
    · intro hall
      obtain ⟨s₁, hs₁, hgood₁⟩ := hall [a] (List.prefix_append [a] as)
      have hstep₁ : step s a = some s₁ := by simpa [runFrom] using hs₁
      have hok : ok s a := hbad hs hallows.1 hstep₁ hgood₁
      refine ⟨hok, fun s' hs' => ?_⟩
      obtain ⟨s₂, hs₂, hinv⟩ := hstep hs hallows.1 hok
      obtain rfl := Option.some.inj (hs₂.symm.trans hs')
      refine (ih hinv (hallows.2 _ hs₂)).1 fun done hdone => ?_
      obtain ⟨s₃, hrun, hgood₃⟩ := hall (a :: done) (List.cons_prefix_cons.2 ⟨rfl, hdone⟩)
      rw [runFrom, hs₂, Option.bind_some] at hrun
      exact ⟨s₃, hrun, hgood₃⟩
    · intro hok done hdone
      obtain ⟨s₁, hs₁, hinv⟩ := hstep hs hallows.1 hok.1
      have hrest := (ih hinv (hallows.2 s₁ hs₁)).2 (hok.2 s₁ hs₁)
      cases done with
      | nil => exact ⟨s, rfl, hgood hs⟩
      | cons b done =>
        obtain ⟨rfl, hbefore⟩ := List.cons_prefix_cons.1 hdone
        obtain ⟨s', hrun, hgood'⟩ := hrest done hbefore
        exact ⟨s', by rw [runFrom, hs₁]; exact hrun, hgood'⟩

theorem runFrom_append (step : S → A → Option S) (s : S) (as bs : List A) :
    runFrom step s (as ++ bs) = (runFrom step s as).bind (runFrom step · bs) := by
  induction as generalizing s with
  | nil => rfl
  | cons a as ih =>
    rw [List.cons_append, runFrom, runFrom]
    cases step s a with
    | none => rfl
    | some s' => exact ih s'

theorem isSome_runFrom_iff (inv : S → Prop)
    (hstep : ∀ {s a}, inv s → P s a → ∃ s', step s a = some s' ∧ inv s')
    (hbad : ∀ {s a s'}, inv s → step s a = some s' → P s a) (hs : inv s) :
    (runFrom step s as).isSome = true ↔ Follows step P s as := by
  refine ⟨fun hrun => ?_, fun h => ?_⟩
  · induction as generalizing s with
    | nil => trivial
    | cons a as ih =>
      obtain ⟨s₂, hs₂⟩ := Option.isSome_iff_exists.1 hrun
      obtain ⟨s₁, hs₁, hrest⟩ := Option.bind_eq_some_iff.1 hs₂
      have hP := hbad hs hs₁
      obtain ⟨s₁', hs₁', hinv⟩ := hstep hs hP
      refine ⟨hP, fun s' hs' => ?_⟩
      obtain rfl := Option.some.inj (hs₁.symm.trans hs')
      obtain rfl := Option.some.inj (hs₁.symm.trans hs₁')
      exact ih hinv (by rw [hrest]; rfl)
  · obtain ⟨s', hs', -⟩ := h.run inv hstep hs
    rw [hs']
    rfl

end CloudHands.Lib
