import Mathlib.Tactic

/-!
# Readers of a token stream

A reader fails or gives a value together with the tokens it leaves. `Yields p ts a` says
that `p` reads `a` off the front of the stream when the stream begins with `ts`, whatever
follows; it composes along the reader. `Guarantees p P` is about every stream that `p`
gets through.
-/

namespace CloudHands.Lib

abbrev TokenReader (τ α : Type) : Type := StateT (List τ) Option α

namespace TokenReader

variable {τ α β γ : Type}

def throw : TokenReader τ α := fun _ => none

def next : TokenReader τ τ
  | [] => none
  | t :: ts => some (t, ts)

/-- The next `n` tokens, or a failure when there are fewer. -/
def take (n : ℕ) : TokenReader τ (List τ) :=
  fun ts => if n ≤ ts.length then some (ts.take n, ts.drop n) else none

def check (c : Prop) [Decidable c] : TokenReader τ Unit := if c then pure () else throw

def times (p : TokenReader τ α) : ℕ → TokenReader τ (List α)
  | 0 => pure []
  | n + 1 => do
    let a ← p
    let as ← times p n
    pure (a :: as)

@[simp] theorem run_pure (a : α) (ts : List τ) :
    (pure a : TokenReader τ α).run ts = some (a, ts) := rfl

@[simp] theorem run_throw (ts : List τ) : (throw : TokenReader τ α).run ts = none := rfl

theorem run_bind_eq_some {p : TokenReader τ α} {f : α → TokenReader τ β} {ts rest : List τ}
    {b : β} :
    (p >>= f).run ts = some (b, rest) ↔
      ∃ a mid, p.run ts = some (a, mid) ∧ (f a).run mid = some (b, rest) := by
  simp [StateT.run_bind, Option.bind_eq_some_iff]

theorem run_map_eq_some {p : TokenReader τ α} {f : α → β} {ts rest : List τ} {b : β} :
    (f <$> p).run ts = some (b, rest) ↔ ∃ a, p.run ts = some (a, rest) ∧ f a = b := by
  simp [StateT.run_map]

def Yields (p : TokenReader τ α) (ts : List τ) (a : α) : Prop :=
  ∀ rest, p.run (ts ++ rest) = some (a, rest)

theorem yields_pure (a : α) : Yields (pure a : TokenReader τ α) [] a := fun _ => rfl

theorem yields_next (t : τ) : Yields (next : TokenReader τ τ) [t] t := fun _ => rfl

theorem yields_take (ts : List τ) : Yields (take ts.length) ts ts := by
  intro rest
  have hle : ts.length ≤ (ts ++ rest).length := by simp
  have htake : (ts ++ rest).take ts.length = ts := List.take_left
  have hdrop : (ts ++ rest).drop ts.length = rest := List.drop_left
  simp only [StateT.run, take, if_pos hle, htake, hdrop]

theorem yields_check {c : Prop} [Decidable c] (h : c) :
    Yields (check c : TokenReader τ Unit) [] () := by
  rw [check, if_pos h]
  exact yields_pure ()

theorem Yields.bind_run {p : TokenReader τ α} {ts : List τ} {a : α} (h : Yields p ts a)
    (f : α → TokenReader τ β) (rest : List τ) : (p >>= f).run (ts ++ rest) = (f a).run rest := by
  rw [StateT.run_bind, h rest]
  rfl

theorem Yields.nil_bind_run {p : TokenReader τ α} {a : α} (h : Yields p [] a)
    (f : α → TokenReader τ β) (rest : List τ) : (p >>= f).run rest = (f a).run rest :=
  h.bind_run f rest

theorem Yields.eq_of_run {p : TokenReader τ α} {ts rest rest' : List τ} {a b : α}
    (h : Yields p ts a)
    (hrun : p.run (ts ++ rest) = some (b, rest')) : b = a ∧ rest' = rest := by
  rw [h rest] at hrun
  obtain ⟨rfl, rfl⟩ := Prod.mk.inj (Option.some.inj hrun)
  exact ⟨rfl, rfl⟩

theorem Yields.bind {p : TokenReader τ α} {f : α → TokenReader τ β} {ts us : List τ} {a : α} {b : β}
    (hp : Yields p ts a) (hf : Yields (f a) us b) : Yields (p >>= f) (ts ++ us) b := by
  intro rest
  rw [List.append_assoc, hp.bind_run]
  exact hf rest

theorem Yields.map {p : TokenReader τ α} {ts : List τ} {a : α} (h : Yields p ts a) (f : α → β) :
    Yields (f <$> p) ts (f a) := by
  intro rest
  exact run_map_eq_some.2 ⟨a, h rest, rfl⟩

theorem Yields.bind_pure {p : TokenReader τ α} {f : α → TokenReader τ β} {ts : List τ} {a : α}
    {b : β}
    (hp : Yields p ts a) (hf : Yields (f a) [] b) : Yields (p >>= f) ts b := by
  have hall := hp.bind hf
  rwa [List.append_nil] at hall

theorem Yields.nil_bind {p : TokenReader τ α} {f : α → TokenReader τ β} {us : List τ} {a : α}
    {b : β}
    (hp : Yields p [] a) (hf : Yields (f a) us b) : Yields (p >>= f) us b := hp.bind hf

theorem Yields.run {p : TokenReader τ α} {ts : List τ} {a : α} (h : Yields p ts a) :
    p.run ts = some (a, []) := by
  simpa using h []

theorem yields_times {p : TokenReader τ α} {enc : γ → List τ} {dec : γ → α} {xs : List γ}
    (h : ∀ x ∈ xs, Yields p (enc x) (dec x)) :
    Yields (times p xs.length) (xs.flatMap enc) (xs.map dec) := by
  induction xs with
  | nil => exact yields_pure []
  | cons x xs ih =>
    have hhead := h x (by simp)
    have htail := ih fun y hy => h y (by simp [hy])
    exact hhead.bind (htail.bind_pure (yields_pure _))

def Guarantees (p : TokenReader τ α) (P : α → Prop) : Prop :=
  ∀ ⦃ts a rest⦄, p.run ts = some (a, rest) → P a

theorem Guarantees.bind {p : TokenReader τ α} {f : α → TokenReader τ β} {P : α → Prop}
    {Q : β → Prop}
    (hp : Guarantees p P) (hf : ∀ a, P a → Guarantees (f a) Q) : Guarantees (p >>= f) Q := by
  intro ts b rest h
  obtain ⟨a, mid, ha, hb⟩ := run_bind_eq_some.1 h
  exact hf a (hp ha) hb

theorem guarantees_pure {P : α → Prop} {a : α} (h : P a) :
    Guarantees (pure a : TokenReader τ α) P := by
  intro ts b rest hb
  obtain ⟨rfl, -⟩ := Prod.mk.inj (Option.some.inj hb)
  exact h

theorem guarantees_true (p : TokenReader τ α) : Guarantees p fun _ => True := fun _ _ _ _ => trivial

theorem guarantees_throw {P : α → Prop} : Guarantees (throw : TokenReader τ α) P :=
  fun _ _ _ h => nomatch h

theorem guarantees_times {p : TokenReader τ α} {P : α → Prop} (h : Guarantees p P) (n : ℕ) :
    Guarantees (times p n) fun as => as.length = n ∧ ∀ a ∈ as, P a := by
  induction n with
  | zero => exact guarantees_pure ⟨rfl, by simp⟩
  | succ n ih =>
    refine h.bind fun a ha => ih.bind fun as has => guarantees_pure ?_
    obtain ⟨hlen, hall⟩ := has
    exact ⟨by simp [hlen], List.forall_mem_cons.2 ⟨ha, hall⟩⟩

theorem times_of_same {p : TokenReader τ α} {enc : γ → List τ} {same : α → γ → Prop}
    {readable : γ → Prop}
    (hp : ∀ {x a rest rest'}, p.run (enc x ++ rest) = some (a, rest') → same a x →
      readable x ∧ rest' = rest)
    {xs : List γ} {got : List α} {rest rest' : List τ}
    (hrun : (times p xs.length).run (xs.flatMap enc ++ rest) = some (got, rest'))
    (hsame : List.Forall₂ same got xs) : (∀ x ∈ xs, readable x) ∧ rest' = rest := by
  induction xs generalizing got rest with
  | nil =>
    obtain ⟨-, rfl⟩ := Prod.mk.inj (Option.some.inj hrun)
    exact ⟨by simp, rfl⟩
  | cons x xs ih =>
    rw [List.flatMap_cons, List.append_assoc] at hrun
    obtain ⟨a, mid, ha, hrun⟩ := run_bind_eq_some.1 hrun
    obtain ⟨as, mid', has, hrun⟩ := run_bind_eq_some.1 hrun
    obtain ⟨rfl, rfl⟩ := Prod.mk.inj (Option.some.inj hrun)
    cases hsame with
    | cons hhead htail =>
      obtain ⟨hx, rfl⟩ := hp ha hhead
      obtain ⟨hxs, hrest⟩ := ih has htail
      exact ⟨List.forall_mem_cons.2 ⟨hx, hxs⟩, hrest⟩

/-- A reader that gets through a stream takes `n` tokens of it. -/
def Takes (p : TokenReader τ α) (n : ℕ) : Prop :=
  ∀ ⦃ts a rest⦄, p.run ts = some (a, rest) → rest = ts.drop n

theorem takes_pure (a : α) : Takes (pure a : TokenReader τ α) 0 := by
  intro ts b rest h
  obtain ⟨-, rfl⟩ := Prod.mk.inj (Option.some.inj h)
  rfl

theorem takes_next : Takes (next : TokenReader τ τ) 1 := by
  intro ts t rest h
  cases ts with
  | nil => cases h
  | cons t' ts =>
    obtain ⟨-, rfl⟩ := Prod.mk.inj (Option.some.inj h)
    rfl

theorem takes_throw (n : ℕ) : Takes (throw : TokenReader τ α) n := by
  intro ts a rest h
  cases h

theorem Takes.bind {p : TokenReader τ α} {f : α → TokenReader τ β} {n m : ℕ} (hp : Takes p n)
    (hf : ∀ a, Takes (f a) m) : Takes (p >>= f) (n + m) := by
  intro ts b rest h
  obtain ⟨a, mid, ha, hb⟩ := run_bind_eq_some.1 h
  rw [← List.drop_drop, ← hp ha]
  exact hf a hb

theorem Takes.bind_zero {p : TokenReader τ α} {f : α → TokenReader τ β} {n : ℕ} (hp : Takes p n)
    (hf : ∀ a, Takes (f a) 0) : Takes (p >>= f) n := hp.bind hf

theorem takes_check {c : Prop} [Decidable c] : Takes (check c : TokenReader τ Unit) 0 := by
  rw [check]
  split
  · exact takes_pure ()
  · exact takes_throw 0

end TokenReader

end CloudHands.Lib
