import Mathlib.Logic.Function.Basic
import Mathlib.Data.List.Nodup

/-!
# Circular lists whose links are in their entries

A head and the entries of a list each have a link to the next and to the previous node. A link may
be null, and writing through a null link has no result. The links form the ring of a list when they
lead from the head through its entries and back, in both directions.
-/

namespace CloudHands.Lib

variable {α : Type*}

inductive ListNode (α : Type*)
  | head
  | entry (a : α)
deriving DecidableEq, Repr

structure Links (α : Type*) where
  next : ListNode α → Option (ListNode α)
  prev : ListNode α → Option (ListNode α)

namespace Links

def empty : Links α where
  next n := match n with
    | .head => some .head
    | .entry _ => none
  prev n := match n with
    | .head => some .head
    | .entry _ => none

/-- The links lead from `m` through the entries to `n`, and back. -/
def Path (l : Links α) : ListNode α → List α → ListNode α → Prop
  | m, [], n => l.next m = some n ∧ l.prev n = some m
  | m, a :: as, n => (l.next m = some (.entry a) ∧ l.prev (.entry a) = some m) ∧
      l.Path (.entry a) as n

def lastNode : ListNode α → List α → ListNode α
  | m, [] => m
  | _, a :: as => lastNode (.entry a) as

def firstNode : List α → ListNode α → ListNode α
  | [], n => n
  | a :: _, _ => .entry a

variable {l l' : Links α} {m n : ListNode α} {a : α} {as pre post : List α}

theorem Path.next (h : l.Path m as n) : l.next m = some (firstNode as n) := by
  cases as with
  | nil => exact h.1
  | cons a as => exact h.1.1

theorem Path.prev (h : l.Path m as n) : l.prev n = some (lastNode m as) := by
  induction as generalizing m with
  | nil => exact h.2
  | cons a as ih => exact ih h.2

theorem path_append : l.Path m (pre ++ a :: post) n ↔ l.Path m pre (.entry a) ∧
    l.Path (.entry a) post n := by
  induction pre generalizing m with
  | nil => rfl
  | cons b pre ih =>
    simp only [List.cons_append, Path, ih]
    exact and_assoc.symm

theorem Path.congr (h : l.Path m as n) (hm : l'.next m = l.next m) (hn : l'.prev n = l.prev n)
    (has : ∀ a ∈ as, l'.next (.entry a) = l.next (.entry a) ∧
      l'.prev (.entry a) = l.prev (.entry a)) :
    l'.Path m as n := by
  induction as generalizing m with
  | nil => exact ⟨hm.trans h.1, hn.trans h.2⟩
  | cons a as ih =>
    obtain ⟨hnext, hprev⟩ := has a List.mem_cons_self
    refine ⟨⟨hm.trans h.1.1, hprev.trans h.1.2⟩, ih h.2 hnext fun b hb => ?_⟩
    exact has b (List.mem_cons_of_mem a hb)

theorem lastNode_mem (m : ListNode α) (as : List α) : lastNode m as = m ∨ ∃ a ∈ as,
    lastNode m as = .entry a := by
  induction as generalizing m with
  | nil => exact .inl rfl
  | cons a as ih =>
    rcases ih (.entry a) with h | ⟨b, hb, h⟩
    · exact .inr ⟨a, List.mem_cons_self, h⟩
    · exact .inr ⟨b, List.mem_cons_of_mem a hb, h⟩

theorem Path.unique {bs : List α} (h : l.Path m as .head) (h' : l.Path m bs .head) : as = bs := by
  induction as generalizing m bs with
  | nil =>
    cases bs with
    | nil => rfl
    | cons b bs => cases Option.some.inj (h.next.symm.trans h'.next)
  | cons a as ih =>
    cases bs with
    | nil => cases Option.some.inj (h.next.symm.trans h'.next)
    | cons b bs =>
      obtain rfl : a = b := ListNode.entry.inj (Option.some.inj (h.next.symm.trans h'.next))
      rw [ih h.2 h'.2]

theorem lastNode_concat (m : ListNode α) (as : List α) (a : α) :
    lastNode m (as ++ [a]) = .entry a := by
  induction as generalizing m with
  | nil => rfl
  | cons b as ih => exact ih _

structure Ring (l : Links α) (as : List α) : Prop where
  path : l.Path .head as .head
  nodup : as.Nodup

theorem Ring.unique {bs : List α} (h : l.Ring as) (h' : l.Ring bs) :
    as = bs := h.path.unique h'.path

theorem Ring.next_isSome (h : l.Ring as) (ha : a ∈ as) : (l.next (.entry a)).isSome := by
  obtain ⟨pre, post, rfl⟩ := List.append_of_mem ha
  rw [(path_append.1 h.path).2.next]
  rfl

theorem Ring.empty : (Links.empty : Links α).Ring [] := ⟨⟨rfl, rfl⟩, List.nodup_nil⟩

section Operations

def find (l : Links α) (p : α → Bool) : ℕ → Option (ListNode α) → Option (Option α)
  | 0, _ => none
  | _ + 1, none => none
  | _ + 1, some .head => some none
  | fuel + 1, some (.entry a) => if p a then some (some a) else find l p fuel (l.next (.entry a))

theorem find_path {p : α → Bool} (h : l.Path m as .head) {fuel : ℕ} (hfuel : as.length < fuel) :
    l.find p fuel (l.next m) = some (as.find? p) := by
  induction as generalizing m fuel with
  | nil =>
    obtain ⟨fuel, rfl⟩ := Nat.exists_eq_add_of_lt hfuel
    rw [h.next]
    rfl
  | cons a as ih =>
    rw [List.length_cons] at hfuel
    obtain ⟨fuel, rfl⟩ : ∃ k, fuel = k + 1 := ⟨fuel - 1, by omega⟩
    rw [h.next, firstNode, find, List.find?_cons, ih h.2 (by omega)]
    cases p a <;> rfl

variable [DecidableEq α]

def del (l : Links α) (n : ListNode α) : Links α :=
  match l.prev n, l.next n with
  | some p, some q =>
    { next := Function.update (Function.update l.next p (some q)) n none
      prev := Function.update (Function.update l.prev q (some p)) n none }
  | _, _ => { next := Function.update l.next n none, prev := Function.update l.prev n none }

def add (l : Links α) (n : ListNode α) : Option (Links α) :=
  (l.next .head).map fun first =>
    { next := Function.update (Function.update l.next n (some first)) .head (some n)
      prev := Function.update (Function.update l.prev first (some n)) n (some .head) }

theorem Ring.add (h : l.Ring as) (ha : a ∉ as) :
    ∃ l', l.add (.entry a) = some l' ∧ l'.Ring (a :: as) ∧
      ∀ b ∉ a :: as, l'.next (.entry b) = l.next (.entry b) ∧
        l'.prev (.entry b) = l.prev (.entry b) := by
  refine ⟨_, congrArg (Option.map _) h.path.next, ⟨?_, List.nodup_cons.2 ⟨ha, h.nodup⟩⟩, ?_⟩
  · cases as with
    | nil => simp [Path, firstNode, Function.update]
    | cons b rest =>
      have hab := List.ne_of_not_mem_cons ha
      have harest := List.not_mem_of_not_mem_cons ha
      have hb := (List.nodup_cons.1 h.nodup).1
      refine ⟨?_, ?_, h.path.2.congr ?_ ?_ ?_⟩
      all_goals simp only [firstNode]
      · simp [Function.update]
      · simp [Function.update, Ne.symm hab]
      · simp [Function.update, Ne.symm hab]
      · simp [Function.update]
      · intro c hc
        have hca : c ≠ a := fun hca => harest (hca ▸ hc)
        have hcb : c ≠ b := fun hcb => hb (hcb ▸ hc)
        simp [Function.update, hca, hcb]
  · intro b hb
    have hba := List.ne_of_not_mem_cons hb
    have hbas := List.not_mem_of_not_mem_cons hb
    cases as with
    | nil => simp [firstNode, Function.update, hba]
    | cons c rest =>
      have hbc := List.ne_of_not_mem_cons hbas
      simp [firstNode, Function.update, hba, hbc]

theorem Path.del (h : l.Path m (pre ++ a :: post) .head) (hnodup : (pre ++ a :: post).Nodup)
    (hm : ∀ b ∈ pre ++ a :: post, m ≠ .entry b)
    (hl : l' =
      { next := Function.update
          (Function.update l.next (lastNode m pre) (some (firstNode post .head)))
          (.entry a) none
        prev := Function.update
          (Function.update l.prev (firstNode post .head) (some (lastNode m pre)))
          (.entry a) none }) :
    l'.Path m (pre ++ post) .head := by
  induction pre generalizing m with
  | nil =>
    have hma := hm a List.mem_cons_self
    obtain ⟨hapost, hpost⟩ := List.nodup_cons.1 hnodup
    cases post with
    | nil =>
      rw [hl]
      simp [Path, lastNode, firstNode, Function.update, hma]
    | cons c post =>
      have hca : c ≠ a := fun hca => hapost (hca ▸ List.mem_cons_self)
      have hc := (List.nodup_cons.1 hpost).1
      have hmc := hm c (List.mem_cons_of_mem a List.mem_cons_self)
      refine ⟨?_, h.2.2.congr ?_ ?_ ?_⟩
      all_goals rw [hl]
      all_goals simp only [lastNode, firstNode]
      · simp [Function.update, hma, hca]
      · simp [Function.update, hca, Ne.symm hmc]
      · simp [Function.update]
      · intro d hd
        have hda : d ≠ a := fun hda => hapost (List.mem_cons_of_mem c (hda ▸ hd))
        have hdc : d ≠ c := fun hdc => hc (hdc ▸ hd)
        have hdm := hm d (List.mem_cons_of_mem a (List.mem_cons_of_mem c hd))
        simp [Function.update, hda, hdc, Ne.symm hdm]
  | cons b pre ih =>
    obtain ⟨hb, hrest⟩ := List.nodup_cons.1 hnodup
    have hbne : ∀ c ∈ pre ++ a :: post, ListNode.entry b ≠ .entry c :=
      fun c hc heq => hb (ListNode.entry.inj heq ▸ hc)
    refine ⟨?_, ih h.2 hrest hbne hl⟩
    have hma := hm a (List.mem_cons_of_mem b (List.mem_append_right pre List.mem_cons_self))
    have hba := hbne a (List.mem_append_right pre List.mem_cons_self)
    have hmlast : m ≠ lastNode (.entry b) pre := by
      rcases lastNode_mem (.entry b) pre with heq | ⟨c, hc, heq⟩
      · rw [heq]
        exact hm b List.mem_cons_self
      · rw [heq]
        exact hm c (List.mem_cons_of_mem b (List.mem_append_left _ hc))
    have hbfirst : ListNode.entry b ≠ firstNode post .head := by
      cases post with
      | nil => exact nofun
      | cons c post => exact hbne c (List.mem_append_right pre (by simp))
    rw [hl]
    simp only [lastNode, Function.update_of_ne hma, Function.update_of_ne hmlast,
      Function.update_of_ne hba, Function.update_of_ne hbfirst]
    exact h.1

theorem Ring.del (h : l.Ring as) (ha : a ∈ as) :
    (l.del (.entry a)).Ring (as.erase a) ∧
      ((l.del (.entry a)).next (.entry a) = none ∧ (l.del (.entry a)).prev (.entry a) = none) ∧
      ∀ b ∉ as, (l.del (.entry a)).next (.entry b) = l.next (.entry b) ∧
        (l.del (.entry a)).prev (.entry b) = l.prev (.entry b) := by
  obtain ⟨pre, post, rfl⟩ := List.append_of_mem ha
  obtain ⟨hpre, hpost⟩ := path_append.1 h.path
  have hdel : l.del (.entry a) =
      { next := Function.update (Function.update l.next (lastNode .head pre)
          (some (firstNode post .head))) (.entry a) none
        prev := Function.update (Function.update l.prev (firstNode post .head)
          (some (lastNode .head pre))) (.entry a) none } := by
    rw [Links.del, hpre.prev, hpost.next]
  have hapre : a ∉ pre := fun hmem =>
    (List.nodup_append.1 h.nodup).2.2 a hmem a List.mem_cons_self rfl
  refine ⟨⟨?_, h.nodup.erase a⟩, ?_, fun b hb => ?_⟩
  · rw [List.erase_append_right _ hapre, List.erase_cons_head]
    exact h.path.del h.nodup (fun _ _ => nofun) hdel
  · rw [hdel]
    exact ⟨Function.update_self _ _ _, Function.update_self _ _ _⟩
  · have hba : ListNode.entry b ≠ .entry a := fun heq => hb (ListNode.entry.inj heq ▸ ha)
    have hlast : ListNode.entry b ≠ lastNode .head pre := by
      rcases lastNode_mem .head pre with heq | ⟨c, hc, heq⟩
      · rw [heq]
        exact nofun
      · rw [heq]
        exact fun hbc => hb (List.mem_append_left _ (ListNode.entry.inj hbc ▸ hc))
    have hfirst : ListNode.entry b ≠ firstNode post .head := by
      cases post with
      | nil => exact nofun
      | cons c post => exact fun hbc => hb (ListNode.entry.inj hbc ▸ by simp)
    rw [hdel]
    simp only [Function.update_of_ne hba, Function.update_of_ne hlast,
      Function.update_of_ne hfirst, and_self]

end Operations

end Links

end CloudHands.Lib
