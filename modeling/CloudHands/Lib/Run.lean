import Mathlib.Data.List.Induction

/-!
# Runs of a labelled step relation

A run keeps its history: the state before each step together with the step's
label. Conditions on a step may look at the history before it, and an invariant
kept by every step that meets the condition holds after every run of such steps.
-/

namespace CloudHands.Lib

variable {S A : Type*}

/-- `Run step init history s`: the steps of `history` lead from `init` to `s`. -/
inductive Run (step : S → A → S → Prop) (init : S) : List (S × A) → S → Prop
  | nil : Run step init [] init
  | snoc {history : List (S × A)} {s s' : S} {a : A} :
      Run step init history s → step s a s' → Run step init (history ++ [(s, a)]) s'

/-- Every step of the history meets the condition `ok`. -/
def StepsOk (ok : List (S × A) → S → A → Prop) (history : List (S × A)) : Prop :=
  ∀ pre s a post, history = pre ++ (s, a) :: post → ok pre s a

theorem StepsOk.nil (ok : List (S × A) → S → A → Prop) : StepsOk ok [] := by
  intro pre s a post h
  simp at h

theorem StepsOk.snoc {ok : List (S × A) → S → A → Prop} {history : List (S × A)} {s : S} {a : A}
    (h : StepsOk ok history) (hs : ok history s a) : StepsOk ok (history ++ [(s, a)]) := by
  intro pre s' a' post heq
  rcases List.eq_nil_or_concat post with rfl | ⟨post', e, rfl⟩
  · obtain ⟨hpre, hlast⟩ := List.append_inj' heq rfl
    obtain ⟨rfl, rfl⟩ : s = s' ∧ a = a' := by simpa using hlast
    exact hpre ▸ hs
  · have heq' : history ++ [(s, a)] = (pre ++ (s', a') :: post') ++ [e] := by simpa using heq
    exact h pre s' a' post' (List.append_inj' heq' rfl).1

theorem StepsOk.of_snoc {ok : List (S × A) → S → A → Prop} {history : List (S × A)} {s : S} {a : A}
    (h : StepsOk ok (history ++ [(s, a)])) : StepsOk ok history ∧ ok history s a := by
  refine ⟨fun pre s' a' post heq => h pre s' a' (post ++ [(s, a)]) ?_, h history s a [] rfl⟩
  simp [heq]

theorem StepsOk.of_forall {ok : S → A → Prop} {history : List (S × A)}
    (h : ∀ v ∈ history, ok v.1 v.2) : StepsOk (fun _ => ok) history := by
  intro pre s a post heq
  exact h (s, a) (by simp [heq])

theorem Run.invariant {step : S → A → S → Prop} {init : S} {ok : List (S × A) → S → A → Prop}
    {inv : List (S × A) → S → Prop} (hinit : inv [] init)
    (hstep : ∀ {history s a s'}, inv history s → ok history s a → step s a s' →
      inv (history ++ [(s, a)]) s')
    {history : List (S × A)} {s : S} (hrun : Run step init history s)
    (hok : StepsOk ok history) : inv history s := by
  induction hrun with
  | nil => exact hinit
  | snoc _ hs ih => exact hstep (ih hok.of_snoc.1) hok.of_snoc.2 hs

theorem Run.stateInvariant {step : S → A → S → Prop} {init : S} {ok : S → A → Prop}
    {inv : S → Prop} (hinit : inv init)
    (hstep : ∀ {s a s'}, inv s → ok s a → step s a s' → inv s')
    {history : List (S × A)} {s : S} (hrun : Run step init history s)
    (hok : StepsOk (fun _ => ok) history) : inv s ∧ ∀ v ∈ history, inv v.1 := by
  induction hrun with
  | nil => exact ⟨hinit, by simp⟩
  | snoc _ hs ih =>
    obtain ⟨hinv, hall⟩ := ih hok.of_snoc.1
    refine ⟨hstep hinv hok.of_snoc.2 hs, ?_⟩
    simp only [List.forall_mem_append, List.forall_mem_singleton]
    exact ⟨hall, hinv⟩

/-- The history of the steps `as` from `s` on. -/
def trace (step : S → A → S) (s : S) : List A → List (S × A)
  | [] => []
  | a :: as => (s, a) :: trace step (step s a) as

theorem mem_of_mem_trace {step : S → A → S} {s : S} {as : List A} {v : S × A}
    (h : v ∈ trace step s as) : v.2 ∈ as := by
  induction as generalizing s with
  | nil => cases h
  | cons a as ih =>
    rw [trace, List.mem_cons] at h
    obtain rfl | hrest := h
    · exact List.mem_cons_self
    · exact List.mem_cons_of_mem a (ih hrest)

theorem trace_append (step : S → A → S) (s : S) (as : List A) (a : A) :
    trace step s (as ++ [a]) = trace step s as ++ [(as.foldl step s, a)] := by
  induction as generalizing s with
  | nil => rfl
  | cons b as ih => simp [trace, ih]

theorem Run.trace (step : S → A → S) (init : S) (as : List A) :
    Run (fun s a s' => s' = step s a) init (Lib.trace step init as) (as.foldl step init) := by
  induction as using List.reverseRecOn with
  | nil => exact .nil
  | append_singleton as a ih =>
    rw [trace_append, List.foldl_append]
    exact ih.snoc rfl

theorem Run.guardedTrace {step : S → A → S} {init : S} {ok : S → A → Prop} {as : List A}
    (hok : ∀ v ∈ Lib.trace step init as, ok v.1 v.2) :
    Run (fun s a s' => ok s a ∧ s' = step s a) init (Lib.trace step init as)
      (as.foldl step init) := by
  induction as using List.reverseRecOn with
  | nil => exact .nil
  | append_singleton as a ih =>
    rw [trace_append] at hok ⊢
    rw [List.foldl_append]
    simp only [List.forall_mem_append, List.forall_mem_singleton] at hok
    exact (ih hok.1).snoc ⟨hok.2, rfl⟩

theorem good_iff_trace (step : S → A → S) (allows ok : S → A → Prop) (inv good : S → Prop)
    (hgood : ∀ {s}, inv s → good s)
    (hstep : ∀ {s a}, inv s → allows s a → ok s a → inv (step s a))
    (hbad : ∀ {s a}, inv s → allows s a → good (step s a) → ok s a)
    {s : S} (hs : inv s) {as : List A} (hallows : ∀ v ∈ Lib.trace step s as, allows v.1 v.2) :
    (∀ done, done <+: as → good (done.foldl step s)) ↔ ∀ v ∈ Lib.trace step s as, ok v.1 v.2 := by
  induction as generalizing s with
  | nil =>
    refine ⟨fun _ => List.forall_mem_nil _, fun _ done hdone => ?_⟩
    rw [List.prefix_nil.1 hdone]
    exact hgood hs
  | cons a as ih =>
    simp only [Lib.trace, List.forall_mem_cons] at hallows ⊢
    constructor
    · intro hall
      have hok : ok s a := hbad hs hallows.1 (hall [a] (List.prefix_append [a] as))
      refine ⟨hok, (ih (hstep hs hallows.1 hok) hallows.2).1 fun done hdone => ?_⟩
      exact hall (a :: done) (List.cons_prefix_cons.2 ⟨rfl, hdone⟩)
    · intro hok done hdone
      have hrest := (ih (hstep hs hallows.1 hok.1) hallows.2).2 hok.2
      cases done with
      | nil => exact hgood hs
      | cons b done =>
        obtain ⟨rfl, hrestdone⟩ := List.cons_prefix_cons.1 hdone
        exact hrest done hrestdone

end CloudHands.Lib
