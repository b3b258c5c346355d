import Mathlib.Tactic

/-!
# Feeding a parser with pieces

A parser takes units off the front of its input until the next one is not complete, and what
it leaves is put before the next piece. Where no decision about a unit depends on what follows
it, it makes no difference how the input was cut.
-/

namespace CloudHands.Lib

variable {S U α : Type*}

inductive Outcome (S α : Type*)
  | wait
  | stop
  | take (s : S) (rest : List α)

def drainLoop (step : S → List α → Outcome S α) : ℕ → S → List α → Option (S × List α)
  | 0, s, input => some (s, input)
  | fuel + 1, s, input =>
    match step s input with
    | .wait => some (s, input)
    | .stop => none
    | .take s' rest => drainLoop step fuel s' rest

def drain (step : S → List α → Outcome S α) (s : S) (input : List α) : Option (S × List α) :=
  drainLoop step input.length s input

def feed (step : S → List α → Outcome S α) (r : S × List α) (piece : List α) :
    Option (S × List α) :=
  drain step r.1 (r.2 ++ piece)

structure Settled (S α : Type*) where
  state : S
  left : List α
  gaveUp : Bool

def settleLoop (step : S → List α → Outcome S α) : ℕ → S → List α → Settled S α
  | 0, s, input => ⟨s, input, false⟩
  | fuel + 1, s, input =>
    match step s input with
    | .wait => ⟨s, input, false⟩
    | .stop => ⟨s, input, true⟩
    | .take s' rest => settleLoop step fuel s' rest

def settle (step : S → List α → Outcome S α) (s : S) (input : List α) : Settled S α :=
  settleLoop step input.length s input

def resume (step : S → List α → Outcome S α) (r : Settled S α) (piece : List α) : Settled S α :=
  if r.gaveUp then { r with left := r.left ++ piece } else settle step r.state (r.left ++ piece)

def takenLoop (unit : List α → Option U) (step : S → List α → Outcome S α) :
    ℕ → S → List α → List U
  | 0, _, _ => []
  | fuel + 1, s, input =>
    match step s input with
    | .take s' rest => (unit input).toList ++ takenLoop unit step fuel s' rest
    | .wait | .stop => []

def taken (unit : List α → Option U) (step : S → List α → Outcome S α) (s : S) (input : List α) :
    List U :=
  takenLoop unit step input.length s input

theorem drainLoop_eq (step : S → List α → Outcome S α) (fuel : ℕ) (s : S) (input : List α) :
    drainLoop step fuel s input =
      if (settleLoop step fuel s input).gaveUp then none
      else some ((settleLoop step fuel s input).state, (settleLoop step fuel s input).left) := by
  induction fuel generalizing s input with
  | zero => rfl
  | succ fuel ih =>
    cases hstep : step s input with
    | wait => simp [drainLoop, settleLoop, hstep]
    | stop => simp [drainLoop, settleLoop, hstep]
    | take s' rest =>
      simp only [drainLoop, settleLoop, hstep]
      exact ih s' rest

theorem drain_eq (step : S → List α → Outcome S α) (s : S) (input : List α) :
    drain step s input =
      if (settle step s input).gaveUp then none
      else some ((settle step s input).state, (settle step s input).left) :=
  drainLoop_eq step input.length s input

structure Steady (step : S → List α → Outcome S α) : Prop where
  wait_nil : ∀ s, step s [] = .wait
  shorter : ∀ {s s' input rest}, step s input = .take s' rest → rest.length < input.length
  take_append : ∀ {s s' input rest}, step s input = .take s' rest →
    ∀ more, step s (input ++ more) = .take s' (rest ++ more)
  stop_append : ∀ {s input}, step s input = .stop → ∀ more, step s (input ++ more) = .stop

section

variable {step : S → List α → Outcome S α} (h : Steady step)
include h

theorem settleLoop_fuel {fuel : ℕ} {s : S} {input : List α} (hfuel : input.length ≤ fuel) :
    settleLoop step fuel s input = settle step s input := by
  unfold settle
  induction hlen : input.length using Nat.strong_induction_on generalizing fuel s input with
  | _ n ih =>
    cases n with
    | zero =>
      obtain rfl := List.length_eq_zero_iff.1 hlen
      cases fuel with
      | zero => rfl
      | succ fuel => simp [settleLoop, h.wait_nil]
    | succ n =>
      obtain ⟨fuel, rfl⟩ : ∃ m, fuel = m + 1 := ⟨fuel - 1, by omega⟩
      simp only [settleLoop]
      cases hstep : step s input with
      | wait => rfl
      | stop => rfl
      | take s' rest =>
        have hlt := h.shorter hstep
        have hfew := @ih rest.length (by omega) fuel s' rest (by omega) rfl
        have hmany := @ih rest.length (by omega) n s' rest (by omega) rfl
        exact hfew.trans hmany.symm

theorem settle_wait {s : S} {input : List α} (hstep : step s input = .wait) :
    settle step s input = ⟨s, input, false⟩ := by
  rw [← settleLoop_fuel h (Nat.le_succ _), settleLoop, hstep]

theorem settle_stop {s : S} {input : List α} (hstep : step s input = .stop) :
    settle step s input = ⟨s, input, true⟩ := by
  rw [← settleLoop_fuel h (Nat.le_succ _), settleLoop, hstep]

theorem settle_take {s s' : S} {input rest : List α} (hstep : step s input = .take s' rest) :
    settle step s input = settle step s' rest := by
  rw [← settleLoop_fuel h (Nat.le_succ _), settleLoop, hstep]
  exact settleLoop_fuel h (h.shorter hstep).le

theorem settle_append (s : S) (input more : List α) :
    settle step s (input ++ more) = resume step (settle step s input) more := by
  induction hlen : input.length using Nat.strong_induction_on generalizing s input with
  | _ n ih =>
    cases hstep : step s input with
    | wait =>
      rw [settle_wait h hstep]
      rfl
    | stop =>
      rw [settle_stop h hstep, settle_stop h (h.stop_append hstep more)]
      rfl
    | take s₁ rest₁ =>
      rw [settle_take h hstep, settle_take h (h.take_append hstep more)]
      exact ih _ (hlen ▸ h.shorter hstep) s₁ rest₁ rfl

theorem takenLoop_fuel (unit : List α → Option U) {fuel : ℕ} {s : S} {input : List α}
    (hfuel : input.length ≤ fuel) : takenLoop unit step fuel s input = taken unit step s input := by
  unfold taken
  induction hlen : input.length using Nat.strong_induction_on generalizing fuel s input with
  | _ n ih =>
    cases n with
    | zero =>
      obtain rfl := List.length_eq_zero_iff.1 hlen
      cases fuel with
      | zero => rfl
      | succ fuel => simp [takenLoop, h.wait_nil]
    | succ n =>
      obtain ⟨fuel, rfl⟩ : ∃ m, fuel = m + 1 := ⟨fuel - 1, by omega⟩
      simp only [takenLoop]
      cases hstep : step s input with
      | wait => rfl
      | stop => rfl
      | take s' rest =>
        have hlt := h.shorter hstep
        have hfew := @ih rest.length (by omega) fuel s' rest (by omega) rfl
        have hmany := @ih rest.length (by omega) n s' rest (by omega) rfl
        exact congrArg _ (hfew.trans hmany.symm)

section

variable {unit : List α → Option U}

theorem taken_wait {s : S} {input : List α} (hstep : step s input = .wait) :
    taken unit step s input = [] := by
  rw [← takenLoop_fuel h unit (Nat.le_succ _), takenLoop, hstep]

theorem taken_take {s s' : S} {input rest : List α} (hstep : step s input = .take s' rest) :
    taken unit step s input = (unit input).toList ++ taken unit step s' rest := by
  rw [← takenLoop_fuel h unit (Nat.le_succ _), takenLoop, hstep]
  exact congrArg _ (takenLoop_fuel h unit (h.shorter hstep).le)

end

theorem drain_wait {s : S} {input : List α} (hstep : step s input = .wait) :
    drain step s input = some (s, input) := by
  rw [drain_eq, settle_wait h hstep]
  rfl

theorem drain_stop {s : S} {input : List α} (hstep : step s input = .stop) :
    drain step s input = none := by
  rw [drain_eq, settle_stop h hstep]
  rfl

theorem drain_take {s s' : S} {input rest : List α} (hstep : step s input = .take s' rest) :
    drain step s input = drain step s' rest := by
  rw [drain_eq, drain_eq, settle_take h hstep]

theorem drain_left {s s' : S} {input rest : List α} (hrun : drain step s input = some (s', rest)) :
    step s' rest = .wait := by
  induction hlen : input.length using Nat.strong_induction_on generalizing s input with
  | _ n ih =>
    cases hstep : step s input with
    | wait =>
      rw [drain_wait h hstep] at hrun
      obtain ⟨rfl, rfl⟩ : s = s' ∧ input = rest := by simpa using hrun
      exact hstep
    | stop =>
      rw [drain_stop h hstep] at hrun
      cases hrun
    | take s₁ rest₁ =>
      rw [drain_take h hstep] at hrun
      exact ih _ (hlen ▸ h.shorter hstep) hrun rfl

theorem drain_append (s : S) (input more : List α) :
    drain step s (input ++ more) =
      (drain step s input).bind fun r => drain step r.1 (r.2 ++ more) := by
  rw [drain_eq, drain_eq, settle_append h, resume]
  cases hgave : (settle step s input).gaveUp with
  | true => simp
  | false => simp [drain_eq]

theorem feed_pieces {s : S} {held : List α} (hheld : step s held = .wait)
    (pieces : List (List α)) :
    pieces.foldlM (feed step) (s, held) = drain step s (held ++ pieces.flatten) := by
  induction pieces generalizing s held with
  | nil => simp [drain_wait h hheld]
  | cons piece pieces ih =>
    rw [List.foldlM_cons, List.flatten_cons, ← List.append_assoc, drain_append h]
    simp only [feed]
    cases hrun : drain step s (held ++ piece) with
    | none => rfl
    | some r => exact ih (drain_left h hrun)

theorem drain_units (encode : U → List α) (handle : S → U → Option S) {units : List U}
    (hstep : ∀ s, ∀ u ∈ units, ∀ more,
      step s (encode u ++ more) = (handle s u).elim .stop (.take · more)) (s : S) :
    drain step s (units.flatMap encode) = (units.foldlM handle s).map (·, []) := by
  induction units generalizing s with
  | nil => exact drain_wait h (h.wait_nil s)
  | cons u units ih =>
    have hu := hstep s u List.mem_cons_self (units.flatMap encode)
    rw [List.flatMap_cons, List.foldlM_cons]
    cases hhandle : handle s u with
    | none =>
      rw [hhandle] at hu
      exact drain_stop h hu
    | some s' =>
      rw [hhandle] at hu
      rw [drain_take h hu]
      exact ih (fun s u hu => hstep s u (List.mem_cons_of_mem _ hu)) s'

end

end CloudHands.Lib
