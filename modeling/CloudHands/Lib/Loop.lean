import Mathlib.Tactic

/-!
# Loops with a bound on the number of iterations

An iteration goes on with a new state or leaves the loop with a result. The loop is run
with fuel; a measure that falls with every iteration that goes on gives enough of it, and
then a description of the result that every iteration keeps describes the whole loop.
-/

namespace CloudHands.Lib

variable {S R : Type*}

inductive Iter (S R : Type*)
  | next (s : S)
  | leave (r : R)

def loop (iter : S → Iter S R) : ℕ → S → Option R
  | 0, _ => none
  | fuel + 1, s =>
    match iter s with
    | .next s' => loop iter fuel s'
    | .leave r => some r

def loopAll (iter : S → Iter S R) (test : S → Bool) : ℕ → S → Bool
  | 0, _ => true
  | fuel + 1, s =>
    test s &&
      match iter s with
      | .next s' => loopAll iter test fuel s'
      | .leave _ => true

theorem loop_next {iter : S → Iter S R} {s s' : S} (h : iter s = .next s') (fuel : ℕ) :
    loop iter (fuel + 1) s = loop iter fuel s' := by
  rw [loop, h]

theorem loop_leave {iter : S → Iter S R} {s : S} {r : R} (h : iter s = .leave r) (fuel : ℕ) :
    loop iter (fuel + 1) s = some r := by
  rw [loop, h]

/-- The loop rule. `post s r` says that `r` is a right result from `s`: an iteration that
goes on passes right results back and one that leaves has a right result, both under the
test that the states on the way are known to pass. -/
theorem loop_spec {iter : S → Iter S R} {test : S → Bool} (measure : S → ℕ) (inv : S → Prop)
    (post : S → R → Prop)
    (hnext : ∀ {s s'}, inv s → test s = true → iter s = .next s' →
      inv s' ∧ measure s' < measure s ∧ ∀ r, post s' r → post s r)
    (hleave : ∀ {s r}, inv s → test s = true → iter s = .leave r → post s r)
    {fuel : ℕ} {s : S} (hs : inv s) (hfuel : measure s < fuel)
    (hall : loopAll iter test fuel s = true) :
    ∃ r, loop iter fuel s = some r ∧ post s r := by
  induction fuel generalizing s with
  | zero => omega
  | succ fuel ih =>
    rw [loopAll, Bool.and_eq_true] at hall
    obtain ⟨htest, hrest⟩ := hall
    cases h : iter s with
    | leave r => exact ⟨r, loop_leave h fuel, hleave hs htest h⟩
    | next s' =>
      rw [h] at hrest
      obtain ⟨hs', hlt, hback⟩ := hnext hs htest h
      obtain ⟨r, hr, hpost⟩ := ih hs' (by omega) hrest
      exact ⟨r, by rw [loop_next h, hr], hback r hpost⟩

theorem loop_invariant {iter : S → Iter S R} (inv : S → Prop) (post : R → Prop)
    (hnext : ∀ {s s'}, inv s → iter s = .next s' → inv s')
    (hleave : ∀ {s r}, inv s → iter s = .leave r → post r)
    {fuel : ℕ} {s : S} {r : R} (hs : inv s) (h : loop iter fuel s = some r) : post r := by
  induction fuel generalizing s with
  | zero => cases h
  | succ fuel ih =>
    cases hiter : iter s with
    | next s' =>
      rw [loop_next hiter] at h
      exact ih (hnext hs hiter) h
    | leave r' =>
      rw [loop_leave hiter] at h
      obtain rfl := Option.some.inj h
      exact hleave hs hiter

def Iter.All (inv : S → Prop) (post : R → Prop) : Iter S R → Prop
  | .next s => inv s
  | .leave r => post r

theorem loop_all {iter : S → Iter S R} {inv : S → Prop} {post : R → Prop}
    (hiter : ∀ s, inv s → (iter s).All inv post) {fuel : ℕ} {s : S} {r : R} (hs : inv s)
    (h : loop iter fuel s = some r) : post r := by
  refine loop_invariant inv post ?_ ?_ hs h
  · intro s₁ s₂ hs₁ hnext
    have hall := hiter s₁ hs₁
    rwa [hnext] at hall
  · intro s₁ r₁ hs₁ hleave
    have hall := hiter s₁ hs₁
    rwa [hleave] at hall

theorem loop_add {iter : S → Iter S R} {fuel : ℕ} {s : S} {r : R} (h : loop iter fuel s = some r)
    (more : ℕ) : loop iter (fuel + more) s = some r := by
  induction fuel generalizing s with
  | zero => cases h
  | succ fuel ih =>
    rw [Nat.add_right_comm]
    cases hs : iter s with
    | next s' =>
      rw [loop_next hs] at h ⊢
      exact ih h
    | leave r' =>
      rw [loop_leave hs] at h ⊢
      exact h

theorem loop_unique {iter : S → Iter S R} {fuel fuel' : ℕ} {s : S} {r r' : R}
    (h : loop iter fuel s = some r) (h' : loop iter fuel' s = some r') : r = r' := by
  have hmore := loop_add h fuel'
  rw [Nat.add_comm, loop_add h' fuel] at hmore
  exact (Option.some.inj hmore).symm

theorem loopAll_true (iter : S → Iter S R) (fuel : ℕ) (s : S) :
    loopAll iter (fun _ => true) fuel s = true := by
  induction fuel generalizing s with
  | zero => rfl
  | succ fuel ih =>
    rw [loopAll, Bool.true_and]
    cases iter s with
    | next s' => exact ih s'
    | leave r => rfl

theorem loop_isSome {iter : S → Iter S R} (measure : S → ℕ) (inv : S → Prop)
    (hnext : ∀ {s s'}, inv s → iter s = .next s' → inv s' ∧ measure s' < measure s)
    {fuel : ℕ} {s : S} (hs : inv s) (hfuel : measure s < fuel) : (loop iter fuel s).isSome := by
  have hall := loopAll_true iter fuel s
  obtain ⟨r, hr, -⟩ := loop_spec measure inv (fun _ _ => True)
    (fun hinv _ hiter => ⟨(hnext hinv hiter).1, (hnext hinv hiter).2, fun _ => id⟩)
    (fun _ _ _ => trivial) hs hfuel hall
  rw [hr]
  rfl

inductive Passes (iter : S → Iter S R) (start : S) : S → Prop
  | start : Passes iter start start
  | next {s s' : S} : Passes iter start s → iter s = .next s' → Passes iter start s'

theorem Passes.invariant {iter : S → Iter S R} {inv : S → Prop}
    (hnext : ∀ {s s'}, inv s → iter s = .next s' → inv s') {start s : S} (hstart : inv start)
    (h : Passes iter start s) : inv s := by
  induction h with
  | start => exact hstart
  | next _ hiter ih => exact hnext ih hiter

theorem Passes.loop {iter : S → Iter S R} {start s : S} (h : Passes iter start s) {r : R}
    (hstart : ∃ fuel, loop iter fuel start = some r) : ∃ fuel, loop iter fuel s = some r := by
  induction h with
  | start => exact hstart
  | next _ hiter ih =>
    obtain ⟨fuel, hfuel⟩ := ih
    cases fuel with
    | zero => cases hfuel
    | succ fuel => exact ⟨fuel, (loop_next hiter fuel).symm.trans hfuel⟩

theorem exists_passes_leave {iter : S → Iter S R} {fuel : ℕ} {start s : S} {r : R}
    (hs : Passes iter start s) (h : loop iter fuel s = some r) :
    ∃ t, Passes iter start t ∧ iter t = .leave r := by
  induction fuel generalizing s with
  | zero => cases h
  | succ fuel ih =>
    cases hiter : iter s with
    | next s' =>
      rw [loop_next hiter] at h
      exact ih (hs.next hiter) h
    | leave r' =>
      rw [loop_leave hiter] at h
      obtain rfl := Option.some.inj h
      exact ⟨s, hs, hiter⟩

section Graph

open Relation

variable {K : Type*} {iter : S → Iter S R} {live : S → Prop} (key : S → K) {leads : K → K → Prop}

theorem loop_diverges_of_cycle
    (hgo : ∀ {s k}, live s → leads (key s) k → ∃ s', iter s = .next s' ∧ live s' ∧ key s' = k)
    {s : S} {k : K} (hs : live s) (hreach : ReflTransGen leads (key s) k)
    (hcycle : TransGen leads k k)
    (fuel : ℕ) : loop iter fuel s = none := by
  induction fuel generalizing s with
  | zero => rfl
  | succ fuel ih =>
    have hedge : ∃ m, leads (key s) m ∧ ReflTransGen leads m k := by
      rcases hreach.cases_head with heq | hedge
      · rw [heq]
        exact TransGen.head'_iff.1 hcycle
      · exact hedge
    obtain ⟨m, hedge, hrest⟩ := hedge
    obtain ⟨s', hiter, hs', rfl⟩ := hgo hs hedge
    rw [loop_next hiter]
    exact ih hs' hrest

theorem loop_ends_of_acyclic
    (hgo : ∀ {s s'}, live s → iter s = .next s' →
      live s' ∧ leads (key s) (key s') ∨ ∃ r, iter s' = .leave r)
    {start : S} (hstart : live start) (hfinite : {k | ReflTransGen leads (key start) k}.Finite)
    (hacyclic : ∀ k, ReflTransGen leads (key start) k → ¬ TransGen leads k k) :
    ∃ fuel r, loop iter fuel start = some r := by
  let Node := {k // ReflTransGen leads (key start) k}
  have : Finite Node := hfinite
  let behind : Node → Node → Prop := fun a b => TransGen leads b.1 a.1
  have hwf : WellFounded behind := by
    have : IsTrans Node behind := ⟨fun _ _ _ hab hbc => hbc.trans hab⟩
    have : Std.Irrefl behind := ⟨fun a ha => hacyclic a.1 a.2 ha⟩
    exact Finite.wellFounded_of_trans_of_irrefl behind
  have hends : ∀ node : Node, ∀ s, live s → key s = node.1 → ∃ fuel r,
      loop iter fuel s = some r := by
    intro node
    induction node using hwf.induction with
    | _ node ih =>
      intro s hs hkey
      cases hiter : iter s with
      | leave r => exact ⟨1, r, loop_leave hiter 0⟩
      | next s' =>
        rcases hgo hs hiter with ⟨hs', hedge⟩ | ⟨r, hleave⟩
        · rw [hkey] at hedge
          obtain ⟨fuel, r, hr⟩ := ih ⟨key s', node.2.tail hedge⟩ (.single hedge) s' hs' rfl
          exact ⟨fuel + 1, r, (loop_next hiter fuel).trans hr⟩
        · exact ⟨2, r, (loop_next hiter 1).trans (loop_leave hleave 0)⟩
  exact hends ⟨key start, .refl⟩ start hstart rfl

end Graph

end CloudHands.Lib
