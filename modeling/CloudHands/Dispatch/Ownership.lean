import CloudHands.Dispatch.PacketDispatch

/-!
# Who owns a packet

Every holder of a packet (a receive task, a slot of a ring, a worker) stands for the
references it will give back. The invariant is that the count of every segment is the
number of these references; the segments are back in the pool when it is zero.
-/

namespace CloudHands.Dispatch

open CloudHands.Lib
open CloudHands.Word (sub)

variable {T Q : Type*}

def RxTask.refs : RxTask Q → ℕ → ℕ
  | .idle, _ => 0
  | .parsing p', p => if p' = p then 1 else 0
  | .put p' pint _, p => if p' = p then (if pint = .sa then 1 else 2) else 0

def Worker.refs : Worker → ℕ → ℕ
  | .processing p', p => if p' = p then 1 else 0
  | _, _ => 0

def RxTask.puts : RxTask Q → ℕ → ProcessInterface → ℕ
  | .idle, _, _ => 0
  | .parsing p', p, _ => if p' = p then 1 else 0
  | .put p' pint' _, p, pint => if p' = p ∧ (pint = pint' ∨ pint = .sa) then 1 else 0

theorem afterPut_refs (p p' : ℕ) (pint : ProcessInterface) (q : Option Q) :
    (afterPut p pint : RxTask Q).refs p' + (if p' = p then 1 else 0) =
      (RxTask.put p pint q).refs p' := by
  by_cases h : p' = p
  · subst h
    cases pint <;> simp [afterPut, RxTask.refs]
  · cases pint <;> simp [afterPut, RxTask.refs, h, Ne.symm h]

theorem afterPut_puts (p p' : ℕ) (pint pint' : ProcessInterface) (q : Option Q) :
    (afterPut p pint : RxTask Q).puts p' pint' + (if p' = p ∧ pint' = pint then 1 else 0) =
      (RxTask.put p pint q).puts p' pint' := by
  by_cases h : p' = p
  · subst h
    cases pint <;> cases pint' <;> simp [afterPut, RxTask.puts]
  · cases pint <;> simp [afterPut, RxTask.puts, h, Ne.symm h]

theorem countUp_apply (f : ℕ → ProcessInterface → ℕ) (p p' : ℕ) (pint pint' : ProcessInterface) :
    countUp f p pint p' pint' = f p' pint' + if p' = p ∧ pint' = pint then 1 else 0 := by
  by_cases hp : p' = p
  · subst hp
    by_cases hi : pint' = pint
    · subst hi
      simp [countUp]
    · simp [countUp, hi]
  · simp [countUp, hp]

theorem setTask_tasks [DecidableEq T] {s : DispatchState T Q} {t t' : T} {task x : RxTask Q}
    (h : (s.setTask t task).tasks t' = x) : task = x ∨ s.tasks t' = x := by
  by_cases ht : t' = t
  · subst ht
    exact Or.inl (by simpa [DispatchState.setTask] using h)
  · exact Or.inr (by simpa [DispatchState.setTask, ht] using h)

theorem afterPut_ne_parsing (p p' : ℕ) (pint : ProcessInterface) :
    (afterPut p pint : RxTask Q) ≠ .parsing p' := by
  cases pint <;> simp [afterPut]

theorem afterPut_ne_put (p p' : ℕ) (pint pint' : ProcessInterface) (q : Q) :
    (afterPut p pint : RxTask Q) ≠ .put p' pint' (some q) := by
  cases pint <;> simp [afterPut]

variable [Fintype T] [Fintype Q]

def refs (s : DispatchState T Q) (p : ℕ) : ℕ :=
  ∑ t, (s.tasks t).refs p + ∑ q, (s.rings q).count p + ∑ q, (s.workers q).refs p

def puts (s : DispatchState T Q) (p : ℕ) (pint : ProcessInterface) : ℕ :=
  ∑ t, (s.tasks t).puts p pint

def inRings (cfg : DispatchConfig Q) (s : DispatchState T Q) (p : ℕ) (pint : ProcessInterface) :
    ℕ :=
  ∑ q, if cfg.pint q = pint then (s.rings q).count p else 0

theorem refs_setTask [DecidableEq T] (s : DispatchState T Q) (t : T) (task : RxTask Q) (p : ℕ) :
    refs (s.setTask t task) p + (s.tasks t).refs p = refs s p + task.refs p := by
  have h := sum_update (fun _ (x : RxTask Q) => x.refs p) s.tasks t task
  simp only [refs, DispatchState.setTask] at h ⊢
  omega

theorem refs_setRing [DecidableEq Q] (s : DispatchState T Q) (q : Q) (ring : List ℕ) (p : ℕ) :
    refs (s.setRing q ring) p + (s.rings q).count p = refs s p + ring.count p := by
  have h := sum_update (fun _ (x : List ℕ) => x.count p) s.rings q ring
  simp only [refs, DispatchState.setRing] at h ⊢
  omega

theorem refs_setWorker [DecidableEq Q] (s : DispatchState T Q) (q : Q) (worker : Worker) (p : ℕ) :
    refs (s.setWorker q worker) p + (s.workers q).refs p = refs s p + worker.refs p := by
  have h := sum_update (fun _ (x : Worker) => x.refs p) s.workers q worker
  simp only [refs, DispatchState.setWorker] at h ⊢
  omega

omit [Fintype Q] in
theorem puts_setTask [DecidableEq T] (s : DispatchState T Q) (t : T) (task : RxTask Q) (p : ℕ)
    (pint : ProcessInterface) :
    puts (s.setTask t task) p pint + (s.tasks t).puts p pint = puts s p pint + task.puts p pint :=
  sum_update (fun _ (x : RxTask Q) => x.puts p pint) s.tasks t task

omit [Fintype T] in
theorem inRings_setRing [DecidableEq Q] (cfg : DispatchConfig Q) (s : DispatchState T Q) (q : Q)
    (ring : List ℕ) (p : ℕ) (pint : ProcessInterface) :
    inRings cfg (s.setRing q ring) p pint +
        (if cfg.pint q = pint then (s.rings q).count p else 0) =
      inRings cfg s p pint + (if cfg.pint q = pint then ring.count p else 0) :=
  sum_update (fun x (l : List ℕ) => if cfg.pint x = pint then l.count p else 0) s.rings q ring

theorem task_refs_le (s : DispatchState T Q) (t : T) (p : ℕ) : (s.tasks t).refs p ≤ refs s p := by
  have h := le_sum (fun t => (s.tasks t).refs p) t
  simp only [refs] at h ⊢
  omega

theorem ring_count_le (s : DispatchState T Q) (q : Q) (p : ℕ) :
    (s.rings q).count p ≤ refs s p := by
  have h := le_sum (fun q => (s.rings q).count p) q
  simp only [refs] at h ⊢
  omega

theorem worker_refs_le (s : DispatchState T Q) (q : Q) (p : ℕ) :
    (s.workers q).refs p ≤ refs s p := by
  have h := le_sum (fun q => (s.workers q).refs p) q
  simp only [refs] at h ⊢
  omega

def SegsOk (s : DispatchState T Q) : Prop :=
  ∀ p < s.number, ∀ seg ∈ (s.packets p).segs,
    seg.refcnt = refs s p ∧ seg.returned = if refs s p = 0 then 1 else 0

structure DispatchInv (cfg : DispatchConfig Q) (s : DispatchState T Q) : Prop where
  segs : SegsOk s
  refs_le : ∀ p, refs s p ≤ 2
  parsing : ∀ t p, s.tasks t = .parsing p → refs s p = 1
  unborn : ∀ p, s.number ≤ p → refs s p = 0 ∧ ∀ pint, puts s p pint = 0 ∧ s.accepted p pint = 0
  once : ∀ p pint, s.accepted p pint + puts s p pint ≤ 1
  delivery : ∀ p pint, s.accepted p pint = inRings cfg s p pint + s.delivered p pint
  queue : ∀ t p pint q, s.tasks t = .put p pint (some q) → cfg.pint q = pint

theorem segmentFree_spec {seg : Segment} {n : ℕ} (hpos : 0 < n) (hle : n ≤ 2)
    (hcount : seg.refcnt = n) (hret : seg.returned = 0) :
    (segmentFree seg).refcnt = n - 1 ∧
      (segmentFree seg).returned = if n - 1 = 0 then 1 else 0 := by
  have hsub : sub 16 seg.refcnt 1 = n - 1 := by
    rw [hcount]
    exact Word.sub_of_le (by omega) (by omega)
  simp [segmentFree, hsub, hret]

theorem SegsOk.freeing {s s' : DispatchState T Q} (h : SegsOk s) {p₀ : ℕ}
    (hle : refs s p₀ ≤ 2)
    (hpackets : s'.packets = Function.update s.packets p₀ (packetFree (s.packets p₀)))
    (hnumber : s'.number = s.number)
    (hrefs : ∀ p, refs s' p + (if p = p₀ then 1 else 0) = refs s p) : SegsOk s' := by
  intro p hp seg hseg
  rw [hnumber] at hp
  rw [hpackets] at hseg
  have hr := hrefs p
  by_cases heq : p = p₀
  · subst heq
    rw [if_pos rfl] at hr
    rw [Function.update_self] at hseg
    obtain ⟨old, hold, rfl⟩ := List.mem_map.1 hseg
    obtain ⟨hcount, hret⟩ := h p hp old hold
    rw [if_neg (by omega)] at hret
    have hfree := segmentFree_spec (by omega) hle hcount hret
    have hpred : refs s p - 1 = refs s' p := by omega
    rwa [hpred] at hfree
  · rw [if_neg heq, Nat.add_zero] at hr
    rw [Function.update_of_ne heq] at hseg
    rw [hr]
    exact h p hp seg hseg

theorem DispatchInv.freeing {cfg : DispatchConfig Q} {s s' : DispatchState T Q}
    (h : DispatchInv cfg s) {p₀ : ℕ}
    (hpackets : s'.packets = Function.update s.packets p₀ (packetFree (s.packets p₀)))
    (hnumber : s'.number = s.number)
    (hrefs : ∀ p, refs s' p + (if p = p₀ then 1 else 0) = refs s p)
    (haccepted : s'.accepted = s.accepted) (hputs : ∀ p pint, puts s' p pint ≤ puts s p pint)
    (hdelivery : ∀ p pint, inRings cfg s' p pint + s'.delivered p pint =
      inRings cfg s p pint + s.delivered p pint)
    (hparsing : ∀ t p, s'.tasks t = .parsing p → s.tasks t = .parsing p)
    (hqueue : ∀ t p pint q, s'.tasks t = .put p pint (some q) → s.tasks t = .put p pint (some q)) :
    DispatchInv cfg s' := by
  constructor
  · exact h.segs.freeing (h.refs_le p₀) hpackets hnumber hrefs
  · intro p
    have hr := hrefs p
    have hle := h.refs_le p
    omega
  · intro t p ht
    have hr := hrefs p
    have hone := h.parsing t p (hparsing t p ht)
    have hheld := task_refs_le s' t p
    simp only [ht, RxTask.refs, if_pos] at hheld
    split at hr <;> omega
  · intro p hp
    rw [hnumber] at hp
    obtain ⟨hzero, hput⟩ := h.unborn p hp
    have hr := hrefs p
    refine ⟨by omega, fun pint => ⟨?_, ?_⟩⟩
    · have hle := hputs p pint
      rw [(hput pint).1] at hle
      omega
    · rw [haccepted]
      exact (hput pint).2
  · intro p pint
    have honce := h.once p pint
    have hle := hputs p pint
    rw [haccepted]
    omega
  · intro p pint
    rw [haccepted, hdelivery]
    exact h.delivery p pint
  · exact fun t p pint q ht => h.queue t p pint q (hqueue t p pint q ht)

theorem DispatchInv.moving {cfg : DispatchConfig Q} {s s' : DispatchState T Q}
    (h : DispatchInv cfg s) (hpackets : s'.packets = s.packets) (hnumber : s'.number = s.number)
    (hrefs : ∀ p, refs s' p = refs s p)
    (honce : ∀ p pint, s'.accepted p pint + puts s' p pint ≤ s.accepted p pint + puts s p pint)
    (hdelivery : ∀ p pint,
      s'.accepted p pint + (inRings cfg s p pint + s.delivered p pint) =
        s.accepted p pint + (inRings cfg s' p pint + s'.delivered p pint))
    (hparsing : ∀ t p, s'.tasks t = .parsing p → s.tasks t = .parsing p)
    (hqueue : ∀ t p pint q, s'.tasks t = .put p pint (some q) → cfg.pint q = pint) :
    DispatchInv cfg s' := by
  constructor
  · intro p hp seg hseg
    rw [hnumber] at hp
    rw [hpackets] at hseg
    rw [hrefs]
    exact h.segs p hp seg hseg
  · intro p
    rw [hrefs]
    exact h.refs_le p
  · intro t p ht
    rw [hrefs]
    exact h.parsing t p (hparsing t p ht)
  · intro p hp
    rw [hnumber] at hp
    obtain ⟨hzero, hput⟩ := h.unborn p hp
    refine ⟨by rw [hrefs]; exact hzero, fun pint => ?_⟩
    have hle := honce p pint
    rw [(hput pint).1, (hput pint).2] at hle
    omega
  · intro p pint
    exact le_trans (honce p pint) (h.once p pint)
  · intro p pint
    have hd := hdelivery p pint
    have hold := h.delivery p pint
    omega
  · exact hqueue

section

variable [DecidableEq T]

theorem DispatchInv.taskFrees {cfg : DispatchConfig Q} {s : DispatchState T Q}
    (h : DispatchInv cfg s) {t : T} {p₀ : ℕ} {task : RxTask Q}
    (hrefs : ∀ p, task.refs p + (if p = p₀ then 1 else 0) = (s.tasks t).refs p)
    (hputs : ∀ p pint, task.puts p pint ≤ (s.tasks t).puts p pint)
    (hparsing : ∀ p, task ≠ .parsing p) (hqueue : ∀ p pint q, task ≠ .put p pint (some q)) :
    DispatchInv cfg ((s.free p₀).setTask t task) := by
  refine h.freeing rfl rfl (fun p => ?_) rfl (fun p pint => ?_) (fun _ _ => rfl) ?_ ?_
  · have h1 : refs ((s.free p₀).setTask t task) p + (s.tasks t).refs p = refs s p + task.refs p :=
      refs_setTask (s.free p₀) t task p
    have h2 := hrefs p
    omega
  · have h1 : puts ((s.free p₀).setTask t task) p pint + (s.tasks t).puts p pint =
        puts s p pint + task.puts p pint := puts_setTask (s.free p₀) t task p pint
    have h2 := hputs p pint
    omega
  · intro t' p ht
    exact (setTask_tasks ht).resolve_left (hparsing p)
  · intro t' p pint q ht
    exact (setTask_tasks ht).resolve_left (hqueue p pint q)

theorem DispatchInv.refused {cfg : DispatchConfig Q} {s : DispatchState T Q}
    (h : DispatchInv cfg s) {t : T} {p : ℕ} {pint : ProcessInterface}
    (busy : s.tasks t = .put p pint none) :
    DispatchInv cfg ((s.free p).setTask t (afterPut p pint)) := by
  refine h.taskFrees (fun p' => ?_) (fun p' pint' => ?_) (fun p' => afterPut_ne_parsing p p' pint)
    (fun p' pint' q => afterPut_ne_put p p' pint pint' q)
  · rw [busy]
    exact afterPut_refs p p' pint none
  · rw [busy, ← afterPut_puts p p' pint pint' none]
    omega

theorem DispatchInv.receive {cfg : DispatchConfig Q} {s : DispatchState T Q}
    (h : DispatchInv cfg s) {t : T} (pktType : PktType) (n : ℕ) (idle : s.tasks t = .idle) :
    DispatchInv cfg
      { (s.setPacket s.number (packetReceived pktType n)).setTask t (.parsing s.number) with
        number := s.number + 1 } := by
  set s' : DispatchState T Q :=
    { (s.setPacket s.number (packetReceived pktType n)).setTask t (.parsing s.number) with
      number := s.number + 1 } with hs'
  have hrefs : ∀ p, refs s' p = refs s p + if p = s.number then 1 else 0 := by
    intro p
    have h1 :
        refs s' p + (s.tasks t).refs p = refs s p + (RxTask.parsing s.number : RxTask Q).refs p :=
      refs_setTask (s.setPacket s.number (packetReceived pktType n)) t _ p
    simp only [idle, RxTask.refs, eq_comm] at h1
    omega
  have hputs : ∀ p pint, puts s' p pint = puts s p pint + if p = s.number then 1 else 0 := by
    intro p pint
    have h1 : puts s' p pint + (s.tasks t).puts p pint =
        puts s p pint + (RxTask.parsing s.number : RxTask Q).puts p pint :=
      puts_setTask (s.setPacket s.number (packetReceived pktType n)) t _ p pint
    simp only [idle, RxTask.puts, eq_comm] at h1
    omega
  obtain ⟨hzero, hput⟩ := h.unborn s.number le_rfl
  constructor
  · intro p hp seg hseg
    by_cases heq : p = s.number
    · subst heq
      have hone : refs s' s.number = 1 := by
        rw [hrefs, hzero, if_pos rfl]
      have hnew : s'.packets s.number = packetReceived pktType n := Function.update_self ..
      rw [hnew] at hseg
      obtain rfl := List.eq_of_mem_replicate hseg
      simp [hone]
    · have hsame : s'.packets p = s.packets p := Function.update_of_ne heq ..
      rw [hsame] at hseg
      have hr : refs s' p = refs s p := by
        rw [hrefs, if_neg heq, Nat.add_zero]
      rw [hr]
      exact h.segs p (by simp only [hs'] at hp; omega) seg hseg
  · intro p
    rw [hrefs]
    have hle := h.refs_le p
    split
    · subst p
      omega
    · omega
  · intro t' p ht
    rw [hrefs]
    rcases setTask_tasks ht with hnew | hold
    · obtain rfl : s.number = p := by simpa using hnew
      rw [hzero, if_pos rfl]
    · have hone := h.parsing t' p hold
      have hne : p ≠ s.number := by
        intro hc
        rw [hc, hzero] at hone
        omega
      rw [hone, if_neg hne]
  · intro p hp
    have hlt : s.number < p := hp
    obtain ⟨hz, hpu⟩ := h.unborn p (le_of_lt hlt)
    refine ⟨by rw [hrefs, hz, if_neg (by omega)], fun pint => ⟨?_, (hpu pint).2⟩⟩
    rw [hputs, (hpu pint).1, if_neg (by omega)]
  · intro p pint
    rw [hputs]
    have honce := h.once p pint
    split
    · subst p
      have h1 := (hput pint).1
      have h2 : s'.accepted s.number pint = 0 := (hput pint).2
      omega
    · exact honce
  · exact h.delivery
  · intro t' p pint q ht
    rcases setTask_tasks ht with hnew | hold
    · cases hnew
    · exact h.queue t' p pint q hold

theorem DispatchInv.dispatch {cfg : DispatchConfig Q} {s : DispatchState T Q}
    (h : DispatchInv cfg s) {t : T} {p₀ : ℕ} (busy : s.tasks t = .parsing p₀)
    (hsegs : (firstInterface (s.packets p₀).pktType).isSome → (s.packets p₀).segs.length = 1) :
    DispatchInv cfg (s.dispatch t p₀) := by
  have hone := h.parsing t p₀ busy
  cases hfirst : firstInterface (s.packets p₀).pktType with
  | none =>
    have hs : s.dispatch t p₀ = s.setTask t (.put p₀ .sa none) := by
      simp only [DispatchState.dispatch, hfirst]
    rw [hs]
    refine h.moving rfl rfl (fun p => ?_) (fun p pint => ?_) (fun _ _ => rfl) ?_ ?_
    · have h1 := refs_setTask s t (.put p₀ .sa none) p
      simp only [busy, RxTask.refs, if_true] at h1
      omega
    · have h1 := puts_setTask s t (.put p₀ .sa none) p pint
      have h2 : (RxTask.put p₀ .sa none : RxTask Q).puts p pint ≤
          (RxTask.parsing p₀ : RxTask Q).puts p pint := by
        simp only [RxTask.puts]
        split_ifs <;> omega
      rw [busy] at h1
      simp only [DispatchState.setTask] at h1 ⊢
      omega
    · intro t' p ht
      exact (setTask_tasks ht).resolve_left (by simp)
    · intro t' p pint q ht
      exact h.queue t' p pint q ((setTask_tasks ht).resolve_left (by simp))
  | some pint₀ =>
    have hsa : pint₀ ≠ .sa := by
      intro hc
      rw [hc] at hfirst
      cases hty : (s.packets p₀).pktType <;> simp [firstInterface, hty] at hfirst
    set s' := (s.setPacket p₀ (packetRefCountSet (s.packets p₀) 2)).setTask t (.put p₀ pint₀ none)
    have hs : s.dispatch t p₀ = s' := by
      simp only [DispatchState.dispatch, hfirst, s']
    have hrefs : ∀ p, refs s' p = refs s p + if p = p₀ then 1 else 0 := by
      intro p
      have h1 : refs s' p + (s.tasks t).refs p =
          refs s p + (RxTask.put p₀ pint₀ none : RxTask Q).refs p :=
        refs_setTask (s.setPacket p₀ (packetRefCountSet (s.packets p₀) 2)) t _ p
      simp only [busy, RxTask.refs, if_neg hsa, eq_comm] at h1
      split_ifs at h1 ⊢ <;> omega
    have hputs : ∀ p pint, puts s' p pint ≤ puts s p pint := by
      intro p pint
      have h1 : puts s' p pint + (s.tasks t).puts p pint =
          puts s p pint + (RxTask.put p₀ pint₀ none : RxTask Q).puts p pint :=
        puts_setTask (s.setPacket p₀ (packetRefCountSet (s.packets p₀) 2)) t _ p pint
      have h2 : (RxTask.put p₀ pint₀ none : RxTask Q).puts p pint ≤
          (RxTask.parsing p₀ : RxTask Q).puts p pint := by
        simp only [RxTask.puts]
        split_ifs <;> omega
      rw [busy] at h1
      omega
    rw [hs]
    constructor
    · intro p hp seg hseg
      by_cases heq : p = p₀
      · subst heq
        obtain ⟨old, hold⟩ := List.length_eq_one_iff.1 (hsegs (by simp [hfirst]))
        have hnew : (s'.packets p).segs = [{ old with refcnt := 2 }] := by
          simp [s', DispatchState.setTask, DispatchState.setPacket, packetRefCountSet, hold]
        rw [hnew] at hseg
        obtain rfl := List.mem_singleton.1 hseg
        have hret := (h.segs p hp old (by simp [hold])).2
        rw [hone] at hret
        rw [hrefs, hone, if_pos rfl]
        exact ⟨rfl, hret⟩
      · have hsame : s'.packets p = s.packets p := Function.update_of_ne heq ..
        rw [hsame] at hseg
        rw [hrefs, if_neg heq, Nat.add_zero]
        exact h.segs p hp seg hseg
    · intro p
      rw [hrefs]
      have hle := h.refs_le p
      split
      · subst p
        omega
      · omega
    · intro t' p ht
      have hold : s.tasks t' = .parsing p := (setTask_tasks ht).resolve_left (by simp)
      have hold1 := h.parsing t' p hold
      rw [hrefs, hold1]
      -- two tasks parsing one packet would hold two references
      have hne : p ≠ p₀ := by
        intro hc
        subst hc
        have htt : t' ≠ t := by
          intro hc
          subst hc
          simp [s', DispatchState.setTask] at ht
        have h1 := refs_setTask s t .idle p
        have h2 := task_refs_le (s.setTask t .idle) t' p
        simp only [busy, RxTask.refs, if_true, DispatchState.setTask, ne_eq, htt, not_false_iff,
          Function.update_of_ne, hold] at h1 h2
        omega
      rw [if_neg hne]
    · intro p hp
      obtain ⟨hz, hpu⟩ := h.unborn p hp
      have hne : p ≠ p₀ := by
        intro hc
        rw [hc, hone] at hz
        omega
      refine ⟨by rw [hrefs, hz, if_neg hne], fun pint => ⟨?_, (hpu pint).2⟩⟩
      have hle := hputs p pint
      rw [(hpu pint).1] at hle
      omega
    · intro p pint
      have honce := h.once p pint
      have hle := hputs p pint
      exact le_trans (Nat.add_le_add_left hle _) honce
    · exact h.delivery
    · intro t' p pint q ht
      exact h.queue t' p pint q ((setTask_tasks ht).resolve_left (by simp))

theorem DispatchInv.test {cfg : DispatchConfig Q} {s : DispatchState T Q} (h : DispatchInv cfg s)
    {t : T} {p : ℕ} {pint : ProcessInterface} {q : Q} (busy : s.tasks t = .put p pint none)
    (queue : cfg.pint q = pint) : DispatchInv cfg (s.test cfg t p pint q) := by
  simp only [DispatchState.test]
  split
  · split
    · exact h
    · exact h.refused busy
  · refine h.moving rfl rfl (fun p' => ?_) (fun p' pint' => ?_) (fun _ _ => rfl) ?_ ?_
    · have h1 := refs_setTask s t (.put p pint (some q)) p'
      simp only [busy, RxTask.refs] at h1
      omega
    · have h1 := puts_setTask s t (.put p pint (some q)) p' pint'
      simp only [busy, RxTask.puts] at h1
      simp only [DispatchState.setTask] at h1 ⊢
      omega
    · intro t' p' ht
      exact (setTask_tasks ht).resolve_left (by simp)
    · intro t' p' pint' q' ht
      rcases setTask_tasks ht with hnew | hold
      · obtain ⟨-, rfl, rfl⟩ : p = p' ∧ pint = pint' ∧ q = q' := by simpa using hnew
        exact queue
      · exact h.queue t' p' pint' q' hold

variable [DecidableEq Q]

theorem DispatchInv.enqueue {cfg : DispatchConfig Q} {s : DispatchState T Q}
    (h : DispatchInv cfg s) {t : T} {p : ℕ} {pint : ProcessInterface} {q : Q}
    (busy : s.tasks t = .put p pint (some q)) (room : ¬ ringFull cfg s q) :
    DispatchInv cfg (s.enqueue cfg t p pint q) := by
  have hpint := h.queue t p pint q busy
  set ring := s.rings q ++ [p] with hring
  have hs : s.enqueue cfg t p pint q =
      { (s.setRing q ring).setTask t (afterPut p pint) with
        accepted := countUp s.accepted p pint } := by
    simp only [DispatchState.enqueue, room]
    rfl
  rw [hs]
  have hcount : ∀ p', ring.count p' = (s.rings q).count p' + if p' = p then 1 else 0 := by
    intro p'
    by_cases hp : p' = p
    · simp [hring, hp]
    · simp [hring, hp, Ne.symm hp]
  refine h.moving rfl rfl (fun p' => ?_) (fun p' pint' => ?_) (fun p' pint' => ?_) ?_ ?_
  · have h1 : refs ((s.setRing q ring).setTask t (afterPut p pint)) p' + (s.tasks t).refs p' =
        refs (s.setRing q ring) p' + (afterPut p pint : RxTask Q).refs p' :=
      refs_setTask (s.setRing q ring) t _ p'
    have h2 := refs_setRing s q ring p'
    have h3 := afterPut_refs p p' pint (some q)
    rw [busy] at h1
    rw [hcount] at h2
    simp only [refs] at h1 h2 ⊢
    omega
  · have h1 : puts ((s.setRing q ring).setTask t (afterPut p pint)) p' pint' +
        (s.tasks t).puts p' pint' = puts s p' pint' + (afterPut p pint : RxTask Q).puts p' pint' :=
      puts_setTask (s.setRing q ring) t _ p' pint'
    have h2 := afterPut_puts p p' pint pint' (some q)
    have h3 := countUp_apply s.accepted p p' pint pint'
    rw [busy] at h1
    simp only [puts] at h1 h3 ⊢
    omega
  · have h1 := inRings_setRing cfg s q ring p' pint'
    have h2 := countUp_apply s.accepted p p' pint pint'
    rw [hcount, hpint] at h1
    simp only [inRings, DispatchState.setTask, DispatchState.setRing] at h1 h2 ⊢
    by_cases hi : pint' = pint
    · subst hi
      simp only [if_true, and_true] at h1 h2
      omega
    · simp only [Ne.symm hi, hi, if_false, and_false] at h1 h2
      omega
  · intro t' p' ht
    exact (setTask_tasks (s := s.setRing q ring) ht).resolve_left (afterPut_ne_parsing p p' pint)
  · intro t' p' pint' q' ht
    exact h.queue t' p' pint' q'
      ((setTask_tasks (s := s.setRing q ring) ht).resolve_left (afterPut_ne_put p p' pint pint' q'))

omit [DecidableEq T] in
theorem DispatchInv.popped {cfg : DispatchConfig Q} {s : DispatchState T Q}
    (h : DispatchInv cfg s) {q : Q} {p : ℕ} {ring : List ℕ} (idle : s.workers q = .idle)
    (head : s.rings q = p :: ring) :
    DispatchInv cfg (DispatchState.setWorker
      { s.setRing q ring with delivered := countUp s.delivered p (cfg.pint q) } q
      (.processing p)) := by
  refine h.moving rfl rfl (fun p' => ?_) (fun _ _ => le_rfl) (fun p' pint' => ?_)
    (fun _ _ ht => ht) h.queue
  · have h1 := refs_setWorker (s.setRing q ring) q (.processing p) p'
    have h2 := refs_setRing s q ring p'
    have hw : (s.setRing q ring).workers q = .idle := idle
    rw [hw] at h1
    rw [head, List.count_cons] at h2
    simp only [Worker.refs, beq_iff_eq] at h1 h2
    simp only [refs, DispatchState.setWorker] at h1 h2 ⊢
    omega
  · have h1 := inRings_setRing cfg s q ring p' pint'
    have h2 := countUp_apply s.delivered p p' (cfg.pint q) pint'
    rw [head, List.count_cons] at h1
    simp only [inRings, DispatchState.setWorker, DispatchState.setRing, beq_iff_eq] at h1 h2 ⊢
    by_cases hi : pint' = cfg.pint q
    · subst hi
      by_cases hp : p' = p
      · subst hp
        simp only [if_true, and_true] at h1 h2
        omega
      · simp only [if_true, hp, Ne.symm hp, if_false, and_true] at h1 h2
        omega
    · simp only [Ne.symm hi, hi, if_false, and_false] at h1 h2
      omega

omit [DecidableEq T] in
theorem DispatchInv.workerFrees {cfg : DispatchConfig Q} {s : DispatchState T Q}
    (h : DispatchInv cfg s) {q : Q} {p : ℕ} {worker : Worker} (busy : s.workers q = .processing p)
    (hworker : ∀ p', worker.refs p' = 0) :
    DispatchInv cfg ((s.free p).setWorker q worker) := by
  refine h.freeing rfl rfl (fun p' => ?_) rfl (fun _ _ => le_rfl) (fun _ _ => rfl)
    (fun _ _ ht => ht) (fun _ _ _ _ ht => ht)
  have h1 : refs ((s.free p).setWorker q worker) p' + (s.workers q).refs p' =
      refs s p' + worker.refs p' := refs_setWorker (s.free p) q worker p'
  rw [busy, hworker p'] at h1
  by_cases hp : p' = p
  · subst hp
    simp only [Worker.refs, if_true] at h1
    simp only [if_true]
    omega
  · simp only [Worker.refs, Ne.symm hp, if_false] at h1
    simp only [hp, if_false]
    omega

omit [DecidableEq T] in
theorem DispatchInv.pop {cfg : DispatchConfig Q} {s : DispatchState T Q} (h : DispatchInv cfg s)
    {q : Q} {p : ℕ} {ring : List ℕ} (idle : s.workers q = .idle) (head : s.rings q = p :: ring) :
    DispatchInv cfg (s.pop cfg q p ring) := by
  have hpopped := h.popped idle head
  simp only [DispatchState.pop]
  split
  · have hfreed := hpopped.workerFrees (q := q) (Function.update_self ..)
      (fun p' => show Worker.processingCopy.refs p' = 0 from rfl)
    simpa [DispatchState.setWorker, DispatchState.free, DispatchState.setPacket] using hfreed
  · exact hpopped

theorem DispatchInv.step {cfg : DispatchConfig Q} {s s' : DispatchState T Q}
    {op : DispatchOp T Q} (h : DispatchInv cfg s) (hok : DispatchStepOk cfg s op)
    (hs : DispatchStep cfg s op s') : DispatchInv cfg s' := by
  cases hs with
  | receive idle => exact h.receive _ _ idle
  | @reject t p busy =>
    refine h.taskFrees (fun p' => ?_) (fun _ _ => Nat.zero_le _) (by simp) (by simp)
    rw [busy]
    simp [RxTask.refs, eq_comm]
  | dispatch busy => exact h.dispatch busy (hok _ busy)
  | ignore busy => exact h.refused busy
  | test busy queue => exact h.test busy queue
  | enqueue busy => exact h.enqueue busy (hok _ _ _ busy)
  | pop idle head => exact h.pop idle head
  | finish busy => exact h.workerFrees busy (fun _ => rfl)
  | @finishCopy q busy =>
    refine h.moving rfl rfl (fun p => ?_) (fun _ _ => le_rfl) (fun _ _ => rfl) (fun _ _ ht => ht)
      h.queue
    have h1 := refs_setWorker s q .idle p
    simp only [busy, Worker.refs] at h1
    omega

omit [DecidableEq T] [DecidableEq Q] in
theorem DispatchInv.init (cfg : DispatchConfig Q) :
    DispatchInv cfg (DispatchState.init : DispatchState T Q) := by
  have hrefs : ∀ p, refs (DispatchState.init : DispatchState T Q) p = 0 := by
    intro p
    simp [refs, DispatchState.init, RxTask.refs, Worker.refs]
  have hputs : ∀ p pint, puts (DispatchState.init : DispatchState T Q) p pint = 0 := by
    intro p pint
    simp [puts, DispatchState.init, RxTask.puts]
  constructor
  · intro p hp
    simp [DispatchState.init] at hp
  · intro p
    simp [hrefs]
  · intro t p ht
    simp [DispatchState.init] at ht
  · intro p _
    exact ⟨hrefs p, fun pint => ⟨hputs p pint, rfl⟩⟩
  · intro p pint
    rw [hputs]
    exact Nat.zero_le 1
  · intro p pint
    simp [inRings, DispatchState.init]
  · intro t p pint q ht
    simp [DispatchState.init] at ht

def Unheld (s : DispatchState T Q) (p : ℕ) : Prop :=
  (∀ t, s.tasks t ≠ .parsing p ∧ ∀ pint q, s.tasks t ≠ .put p pint q) ∧ (∀ q, p ∉ s.rings q) ∧
    ∀ q, s.workers q ≠ .processing p

/-- The packets of a state: each segment is returned at most once, and exactly once
when the packet has no holder; what waits in a ring or is being processed has all its
segments; and an accepted packet is in one ring of the interface or was popped from
one, exactly once. -/
structure Owned (cfg : DispatchConfig Q) (s : DispatchState T Q) : Prop where
  atMostOnce : ∀ p < s.number, ∀ seg ∈ (s.packets p).segs, seg.returned ≤ 1
  exactlyOnce : ∀ p < s.number, Unheld s p → ∀ seg ∈ (s.packets p).segs, seg.returned = 1
  waiting : ∀ q, ∀ p ∈ s.rings q, ∀ seg ∈ (s.packets p).segs, seg.returned = 0
  processing : ∀ q p, s.workers q = .processing p → ∀ seg ∈ (s.packets p).segs, seg.returned = 0
  acceptedOnce : ∀ p pint, s.accepted p pint ≤ 1
  delivered : ∀ p pint, s.accepted p pint = inRings cfg s p pint + s.delivered p pint

omit [DecidableEq T] [DecidableEq Q] in
theorem refs_eq_zero_of_unheld {s : DispatchState T Q} {p : ℕ} (h : Unheld s p) :
    refs s p = 0 := by
  obtain ⟨htasks, hrings, hworkers⟩ := h
  have h1 : ∀ t, (s.tasks t).refs p = 0 := by
    intro t
    obtain ⟨hparsing, hput⟩ := htasks t
    cases ht : s.tasks t with
    | idle => rfl
    | parsing p' =>
      rw [ht] at hparsing
      simpa [RxTask.refs] using hparsing
    | put p' pint q =>
      have hne : p' ≠ p := by
        intro hc
        subst hc
        exact hput pint q ht
      simp [RxTask.refs, hne]
  have h2 : ∀ q, (s.workers q).refs p = 0 := by
    intro q
    have hw := hworkers q
    cases hq : s.workers q with
    | idle => rfl
    | processing p' =>
      rw [hq] at hw
      simpa [Worker.refs] using hw
    | processingCopy => rfl
  simp [refs, h1, h2, List.count_eq_zero_of_not_mem (hrings _)]

omit [DecidableEq T] [DecidableEq Q] in
theorem DispatchInv.owned {cfg : DispatchConfig Q} {s : DispatchState T Q}
    (h : DispatchInv cfg s) : Owned cfg s := by
  have hheld : ∀ p, 0 < refs s p → ∀ seg ∈ (s.packets p).segs, seg.returned = 0 := by
    intro p hpos seg hseg
    have hlt : p < s.number := by
      by_contra hc
      have hz := (h.unborn p (not_lt.1 hc)).1
      omega
    rw [(h.segs p hlt seg hseg).2, if_neg (by omega)]
  constructor
  · intro p hp seg hseg
    rw [(h.segs p hp seg hseg).2]
    split <;> omega
  · intro p hp hun seg hseg
    rw [(h.segs p hp seg hseg).2, refs_eq_zero_of_unheld hun, if_pos rfl]
  · intro q p hmem
    exact hheld p (lt_of_lt_of_le (List.count_pos_iff.2 hmem) (ring_count_le s q p))
  · intro q p hw
    have hle := worker_refs_le s q p
    simp only [hw, Worker.refs, if_true] at hle
    exact hheld p (by omega)
  · intro p pint
    have honce := h.once p pint
    omega
  · exact h.delivery

/-- In every state of a run of any number of receive tasks and workers, whose packets
of two consumers have one segment and whose enqueues find room, every packet is owned. -/
theorem owned_of_run (cfg : DispatchConfig Q)
    (history : List (DispatchState T Q × DispatchOp T Q)) (s : DispatchState T Q)
    (hrun : DispatchRun cfg history s) (hok : StepsOk (fun _ => DispatchStepOk cfg) history) :
    Owned cfg s ∧ ∀ v ∈ history, Owned cfg v.1 := by
  obtain ⟨hinv, hall⟩ := Run.stateInvariant (DispatchInv.init cfg) DispatchInv.step hrun hok
  exact ⟨hinv.owned, fun v hv => (hall v hv).owned⟩

end

def twoQueues : DispatchConfig Bool where
  pint q := if q then .tcp else .sa
  qsize _ := 4
  isPktCopy _ := false
  isFromPcap := false

def received (n : ℕ) : DispatchState Unit Bool :=
  { (DispatchState.init.setPacket 0 (packetReceived .tcp n)).setTask () (.parsing 0) with
    number := 1 }

def dispatched (n : ℕ) : DispatchState Unit Bool := (received n).dispatch () 0

def tcpTested (n : ℕ) : DispatchState Unit Bool := (dispatched n).test twoQueues () 0 .tcp true

def tcpAccepted (n : ℕ) : DispatchState Unit Bool := (tcpTested n).enqueue twoQueues () 0 .tcp true

def tcpPopped (n : ℕ) : DispatchState Unit Bool := (tcpAccepted n).pop twoQueues true 0 []

def saTested (n : ℕ) : DispatchState Unit Bool := (tcpPopped n).test twoQueues () 0 .sa false

def saAccepted (n : ℕ) : DispatchState Unit Bool := (saTested n).enqueue twoQueues () 0 .sa false

/-- A TCP packet of `n + 1` segments is accepted by the TCP interface, popped there, and
then accepted for the stream analysis. -/
def tcpHistory (n : ℕ) : List (DispatchState Unit Bool × DispatchOp Unit Bool) :=
  [(.init, .receive () .tcp n), (received n, .dispatch ()), (dispatched n, .test () true),
    (tcpTested n, .enqueue ()), (tcpAccepted n, .pop true), (tcpPopped n, .test () false),
    (saTested n, .enqueue ())]

theorem owned_one_segment :
    DispatchRun twoQueues (tcpHistory 0) (saAccepted 0) ∧ Owned twoQueues (saAccepted 0) := by
  have hrun : DispatchRun twoQueues (tcpHistory 0) (saAccepted 0) :=
    ((((((Run.nil.snoc (.receive rfl)).snoc (.dispatch rfl)).snoc (.test rfl rfl)).snoc
      (.enqueue rfl)).snoc (.pop rfl rfl)).snoc (.test rfl rfl)).snoc (.enqueue rfl)
  have hdispatch : DispatchStepOk twoQueues (received 0) (.dispatch ()) := by
    intro p hp _
    obtain rfl : 0 = p := RxTask.parsing.inj hp
    rfl
  have htcp : DispatchStepOk twoQueues (tcpTested 0) (.enqueue ()) := by
    intro p pint q hp
    obtain rfl : true = q := Option.some.inj (RxTask.put.inj hp).2.2
    decide
  have hsa : DispatchStepOk twoQueues (saTested 0) (.enqueue ()) := by
    intro p pint q hp
    obtain rfl : false = q := Option.some.inj (RxTask.put.inj hp).2.2
    decide
  have hok : StepsOk (fun _ => DispatchStepOk twoQueues) (tcpHistory 0) := by
    apply StepsOk.of_forall
    simp only [tcpHistory, List.forall_mem_cons, List.not_mem_nil, false_imp_iff, implies_true]
    exact ⟨trivial, hdispatch, trivial, htcp, trivial, trivial, hsa, trivial⟩
  exact ⟨hrun, (owned_of_run twoQueues _ _ hrun hok).1⟩

/-- With two segments, the pop for the TCP worker returns the second one, and the packet
waits for the stream analysis without it. -/
theorem two_segments_not_owned :
    DispatchRun twoQueues (tcpHistory 1) (saAccepted 1) ∧ ¬ Owned twoQueues (saAccepted 1) := by
  refine ⟨((((((Run.nil.snoc (.receive rfl)).snoc (.dispatch rfl)).snoc (.test rfl rfl)).snoc
      (.enqueue rfl)).snoc (.pop rfl rfl)).snoc (.test rfl rfl)).snoc (.enqueue rfl), ?_⟩
  intro h
  have hring : (saAccepted 1).rings false = [0] := rfl
  have hsegs : ((saAccepted 1).packets 0).segs = [⟨1, 0⟩, ⟨0, 1⟩] := by
    decide
  have hret := h.waiting false 0 (by simp [hring]) ⟨0, 1⟩ (by simp [hsegs])
  simp at hret

end CloudHands.Dispatch
