import CloudHands.Tcp.FragmentInvariant

/-!
# What the fragment list stands for

After any pushes and pops the list is a sorted sequence of separate ranges, and a push adds its
range. A push that finds no memory has already freed the fragments it was about to cover.
-/

namespace CloudHands.Tcp

open CloudHands.Word (add)

inductive FragmentOp
  | push (data : List UInt8) (dlen offset : ℕ)
  | pop (lastOffset : ℕ)
deriving DecidableEq, Repr

def FragmentOp.Valid : FragmentOp → Prop
  | .push data dlen offset => 0 < dlen ∧ offset + dlen < 2 ^ 32 ∧ dlen ≤ data.length
  | .pop lastOffset => lastOffset < 2 ^ 32

instance : (op : FragmentOp) → Decidable op.Valid
  | .push data dlen offset =>
    inferInstanceAs (Decidable (0 < dlen ∧ offset + dlen < 2 ^ 32 ∧ dlen ≤ data.length))
  | .pop lastOffset => inferInstanceAs (Decidable (lastOffset < 2 ^ 32))

def fragmentStep (frags : List DataFragment) : FragmentOp → List DataFragment
  | .push data dlen offset => (assembleFragmentPush true frags data dlen offset).1
  | .pop lastOffset => (assembleFragmentPop frags lastOffset).2

structure Separate (l : List DataFragment) : Prop where
  sorted : (l.map DataFragment.offset).Pairwise (· < ·)
  nonempty : ∀ f ∈ l, 0 < f.len
  apart : l.Pairwise fun a b => a.offset + a.len < b.offset
  stored : ∀ f ∈ l, f.data.length = f.len

theorem FragmentsOk.separate {l : List DataFragment} (hl : FragmentsOk l) : Separate l where
  sorted := by
    rw [List.pairwise_map]
    exact hl.2.imp fun hapart => (Nat.le_add_right _ _).trans_lt hapart
  nonempty f hf := (hl.1 f hf).1
  apart := hl.2
  stored f hf := (hl.1 f hf).2.2

theorem fragmentStep_ok {l : List DataFragment} (hl : FragmentsOk l) {op : FragmentOp}
    (hop : op.Valid) : FragmentsOk (fragmentStep l op) := by
  cases op with
  | push data dlen offset =>
    obtain ⟨hpos, hbound, hdata⟩ := hop
    exact (assembleFragmentPush_spec hl hpos hbound hdata).2.1
  | pop lastOffset => exact (assembleFragmentPop_spec hl lastOffset).1

theorem fragmentSteps_ok {l : List DataFragment} (hl : FragmentsOk l) (ops : List FragmentOp)
    (hops : ∀ op ∈ ops, op.Valid) : FragmentsOk (ops.foldl fragmentStep l) := by
  induction ops generalizing l with
  | nil => exact hl
  | cons op ops ih =>
    obtain ⟨hop, hops⟩ := List.forall_mem_cons.1 hops
    exact ih (fragmentStep_ok hl hop) hops

/-- The list is separate after every run, and a push adds its range. -/
theorem fragments_separate (ops : List FragmentOp) (hops : ∀ op ∈ ops, op.Valid) :
    Separate (ops.foldl fragmentStep []) ∧
      ∀ data dlen offset, (FragmentOp.push data dlen offset).Valid →
        covered (fragmentStep (ops.foldl fragmentStep []) (.push data dlen offset)) =
          covered (ops.foldl fragmentStep []) ∪ Set.Ico offset (offset + dlen) := by
  have hl := fragmentSteps_ok FragmentsOk.nil ops hops
  refine ⟨hl.separate, ?_⟩
  rintro data dlen offset ⟨hpos, hbound, hdata⟩
  exact (assembleFragmentPush_spec hl hpos hbound hdata).2.2.1

def joiningPushes : List FragmentOp :=
  [.push [1, 2] 2 10, .push [3] 1 13, .push [9, 9, 9] 3 11, .pop 5]

theorem joiningPushes_separate :
    (∀ op ∈ joiningPushes, op.Valid) ∧
      joiningPushes.foldl fragmentStep [] = [⟨[1, 2, 9, 9], 10, 4⟩] ∧
      Separate [⟨[1, 2, 9, 9], 10, 4⟩] := by
  have hops : ∀ op ∈ joiningPushes, op.Valid := by decide
  have hend : joiningPushes.foldl fragmentStep [] = [⟨[1, 2, 9, 9], 10, 4⟩] := by decide
  exact ⟨hops, hend, hend ▸ (fragments_separate joiningPushes hops).1⟩

def KeepsAll (l l' : List DataFragment) : Prop := covered l' = covered l ∧ ∀ f ∈ l, f ∈ l'

theorem coveredFree_eq_filter {df : DataFragment} {l : List DataFragment}
    (h : (dataFragmentCoveredFree df l).2 = false) :
    (dataFragmentCoveredFree df l).1 = l.filter fun f => !dataFragmentCovered f df := by
  induction l with
  | nil => rfl
  | cons f l ih =>
    rw [dataFragmentCoveredFree] at h ⊢
    by_cases hf : dataFragmentCovered f df = true
    · rw [if_pos hf] at h ⊢
      rw [List.filter_cons_of_neg (by simp [hf])]
      exact ih h
    · rw [if_neg hf] at h ⊢
      rw [List.filter_cons_of_pos (by simpa using hf)]
      split
      · rename_i hcovered
        rw [if_pos hcovered] at h
        cases h
      · rename_i hcovered
        rw [if_neg hcovered] at h
        exact congrArg (f :: ·) (ih h)

theorem assembleFragmentPush_failed {allocOk : Bool} {l : List DataFragment} {data : List UInt8}
    {dlen offset : ℕ} (hfail : (assembleFragmentPush allocOk l data dlen offset).2 = false) :
    (assembleFragmentPush allocOk l data dlen offset).1 =
      l.filter fun f => !dataFragmentCovered f ⟨data, offset, dlen⟩ := by
  unfold assembleFragmentPush at hfail ⊢
  dsimp only at hfail ⊢
  split at hfail
  · cases hfail
  · rename_i hcovered
    have hmiss := Bool.eq_false_iff.2 hcovered
    rw [if_neg hcovered]
    split at hfail
    · cases hfail
    · rename_i hlen
      rw [if_neg hlen]
      split at hfail
      · exact coveredFree_eq_filter hmiss
      · cases hfail

/-- A failed push keeps everything exactly when it would have covered nothing. -/
theorem failedPush_keepsAll_iff {allocOk : Bool} {l : List DataFragment} (hl : FragmentsOk l)
    {data : List UInt8} {dlen offset : ℕ}
    (hfail : (assembleFragmentPush allocOk l data dlen offset).2 = false) :
    KeepsAll l (assembleFragmentPush allocOk l data dlen offset).1 ↔
      ∀ f ∈ l, ¬ (offset ≤ f.offset ∧ f.offset + f.len ≤ add 32 offset dlen) := by
  rw [assembleFragmentPush_failed hfail]
  have hiff : ∀ f ∈ l, (!dataFragmentCovered f ⟨data, offset, dlen⟩) = true ↔
      ¬ (offset ≤ f.offset ∧ f.offset + f.len ≤ add 32 offset dlen) := by
    intro f hf
    have hstop : (⟨data, offset, dlen⟩ : DataFragment).stop = add 32 offset dlen := rfl
    simp only [dataFragmentCovered, (hl.1 f hf).stop_eq, hstop, Bool.not_eq_true',
      Bool.and_eq_false_iff, decide_eq_false_iff_not, not_and_or]
  constructor
  · rintro ⟨-, hall⟩ f hf
    exact (hiff f hf).1 (List.mem_filter.1 (hall f hf)).2
  · intro hnone
    have hself : (l.filter fun f => !dataFragmentCovered f ⟨data, offset, dlen⟩) = l :=
      List.filter_eq_self.2 fun f hf => (hiff f hf).2 (hnone f hf)
    rw [hself]
    exact ⟨rfl, fun f hf => hf⟩

theorem fragmentsOk_singleton {f : DataFragment} (hf : f.Ok) : FragmentsOk [f] :=
  ⟨List.forall_mem_singleton.2 hf, List.pairwise_singleton _ _⟩

theorem neighborPush_keepsAll :
    FragmentsOk [⟨[1, 2], 10, 2⟩] ∧
      (assembleFragmentPush false [⟨[1, 2], 10, 2⟩] [3] 1 12).2 = false ∧
      KeepsAll [⟨[1, 2], 10, 2⟩] (assembleFragmentPush false [⟨[1, 2], 10, 2⟩] [3] 1 12).1 := by
  have hl : FragmentsOk [⟨[1, 2], 10, 2⟩] := fragmentsOk_singleton ⟨by decide, by decide, rfl⟩
  have hfail : (assembleFragmentPush false [⟨[1, 2], 10, 2⟩] [3] 1 12).2 = false := by decide
  exact ⟨hl, hfail, (failedPush_keepsAll_iff hl hfail).2 (by decide)⟩

/-- A range over what is buffered, which is lost. -/
theorem coveringPush_not_keepsAll :
    ¬ ∀ allocOk l data dlen offset, FragmentsOk l →
      (assembleFragmentPush allocOk l data dlen offset).2 = false →
        KeepsAll l (assembleFragmentPush allocOk l data dlen offset).1 := by
  intro hclaim
  have hl : FragmentsOk [⟨[1, 2], 10, 2⟩] := fragmentsOk_singleton ⟨by decide, by decide, rfl⟩
  have hkeeps := hclaim false [⟨[1, 2], 10, 2⟩] [0, 1, 2, 3] 4 9 hl (by decide)
  have hgone : (assembleFragmentPush false [⟨[1, 2], 10, 2⟩] [0, 1, 2, 3] 4 9).1 = [] := by decide
  rw [hgone] at hkeeps
  cases hkeeps.2 ⟨[1, 2], 10, 2⟩ List.mem_cons_self

end CloudHands.Tcp
