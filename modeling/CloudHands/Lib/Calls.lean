import Mathlib.Tactic

/-!
# Programs of calls

A program makes calls one after the other, each with the results of the earlier ones at
hand, and ends with a value. A handler says what a call returns and how it changes the
state. Two handlers that agree on the calls of one run agree on the run.
-/

namespace CloudHands.Lib

inductive Calls (Op : Type → Type) (α : Type) : Type 1
  | done (a : α)
  | call {β : Type} (op : Op β) (next : β → Calls Op α)

namespace Calls

variable {Op : Type → Type} {S α β : Type}

def bind (p : Calls Op α) (f : α → Calls Op β) : Calls Op β :=
  match p with
  | .done a => f a
  | .call op next => .call op fun b => (next b).bind f

instance : Monad (Calls Op) where
  pure := .done
  bind := bind

def single (op : Op α) : Calls Op α := .call op .done

def run (handle : ∀ {β}, Op β → S → β × S) : Calls Op α → S → α × S
  | .done a, s => (a, s)
  | .call op next, s => (next (handle op s).1).run handle (handle op s).2

/-- The test holds of every call of the run in the state before it. -/
def Along (handle : ∀ {β}, Op β → S → β × S) (test : ∀ {β}, Op β → S → Prop) : Calls Op α → S → Prop
  | .done _, _ => True
  | .call op next, s => test op s ∧ (next (handle op s).1).Along handle test (handle op s).2

variable {handle handle' : ∀ {β}, Op β → S → β × S} {test test' : ∀ {β}, Op β → S → Prop}

instance decidableAlong [∀ {β} (op : Op β) (s : S), Decidable (test op s)] :
    (p : Calls Op α) → (s : S) → Decidable (p.Along handle test s)
  | .done _, _ => isTrue trivial
  | .call op next, s =>
    have := decidableAlong (next (handle op s).1) (handle op s).2
    inferInstanceAs (Decidable (test op s ∧
      (next (handle op s).1).Along handle test (handle op s).2))

@[simp] theorem run_pure (a : α) (s : S) : (pure a : Calls Op α).run handle s = (a, s) := rfl

theorem run_bind (p : Calls Op α) (f : α → Calls Op β) (s : S) :
    (p >>= f).run handle s = (f (p.run handle s).1).run handle (p.run handle s).2 := by
  induction p generalizing s with
  | done a => rfl
  | call op next ih => exact ih _ _

@[simp] theorem run_single (op : Op α) (s : S) : (single op).run handle s = handle op s := rfl

theorem run_ite (c : Prop) [Decidable c] (p q : Calls Op α) (s : S) :
    (if c then p else q).run handle s = if c then p.run handle s else q.run handle s := by
  split <;> rfl

theorem run_congr {p : Calls Op α} {s : S}
    (h : p.Along handle (fun op s => handle op s = handle' op s) s) :
    p.run handle s = p.run handle' s := by
  induction p generalizing s with
  | done a => rfl
  | call op next ih =>
    obtain ⟨hcall, hrest⟩ := h
    rw [run, run, ← hcall]
    exact ih _ hrest

theorem Along.imp (inv : S → Prop)
    (hkeep : ∀ {β} {op : Op β} {s}, inv s → test op s → inv (handle op s).2)
    (himp : ∀ {β} {op : Op β} {s}, inv s → test op s → test' op s) {p : Calls Op α} {s : S}
    (hs : inv s)
    (h : p.Along handle test s) : p.Along handle test' s := by
  induction p generalizing s with
  | done a => trivial
  | call op next ih =>
    obtain ⟨hcall, hrest⟩ := h
    exact ⟨himp hs hcall, ih _ (hkeep hs hcall) hrest⟩

end Calls

end CloudHands.Lib
