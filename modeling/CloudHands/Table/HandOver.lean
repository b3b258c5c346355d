import CloudHands.Table.Refinement

/-!
# Handing timed out entries over to the worker

The invariant of the timeout ring, and what follows for whole runs of the worker and
the watcher: the table refines the map of its live entries, and every entry the
worker takes from the ring is the incarnation the watcher put there.
-/

namespace CloudHands.Table

open CloudHands.Lib

variable {κ : Type*}

theorem find_timeoutEntries (cfg : PtableConfig κ) (tbl : Ptable κ) (key : κ) (now : ℕ) :
    (ptableEntryFind cfg tbl key now).2.timeoutEntries = tbl.timeoutEntries := by
  have htiers : (findTiers cfg tbl key).2.timeoutEntries = tbl.timeoutEntries := by
    refine findTiers_keeps cfg key (fun tbl => ?_) (fun tbl => ?_) (fun tbl => ?_) tbl
    · simp only [ptableEntryFindFromLast]
      split <;> rfl
    · simp only [ptableEntryFindFromCaches]
      split <;> rfl
    · simp only [ptableEntryFindFromEntries]
      split <;> simp
  cases hr : (findTiers cfg tbl key).1 with
  | none =>
    rw [ptableEntryFind_of_none now hr]
    exact htiers
  | some entry =>
    rw [ptableEntryFind_of_some now hr]
    exact htiers

theorem HandedOver.congr {s s' : TableState κ} (h : HandedOver s)
    (hlive : ∀ p ∈ s.live, p ∈ s'.live) (hring : s'.tbl.timeoutEntries = s.tbl.timeoutEntries)
    (hpending : s'.pending = s.pending) (hscan : s'.scan = s.scan) : HandedOver s' := by
  constructor
  · rw [hring]
    intro inc hinc
    obtain ⟨p, hp, heq⟩ := h.ring inc hinc
    exact ⟨p, hlive p hp, heq⟩
  · rw [hring]
    exact h.ring_nodup
  · rw [hring, hpending]
    intro inc hinc
    obtain ⟨⟨p, hp, heq⟩, hne⟩ := h.pending inc hinc
    exact ⟨⟨p, hlive p hp, heq⟩, hne⟩
  · rw [hscan]
    exact h.todo_nodup
  · rw [hscan]
    intro scan hs e he
    obtain ⟨p, hp, heq⟩ := h.todo_live scan hs e he
    exact ⟨p, hlive p hp, heq⟩
  · rw [hscan, hring]
    exact h.todo_ring

theorem HandedOver.freed {s s' : TableState κ} {inc : Incarnation} (h : HandedOver s)
    (hfree : ∀ inc' ∈ s.tbl.timeoutEntries, inc'.entry ≠ inc.entry)
    (hlive : s'.live = s.live.remove inc) (hring : s'.tbl.timeoutEntries = s.tbl.timeoutEntries)
    (hpending : s'.pending = none) (hscan : s'.scan = none) : HandedOver s' := by
  constructor
  · rw [hring]
    intro inc' hinc'
    obtain ⟨p, hp, heq⟩ := h.ring inc' hinc'
    refine ⟨p, ?_, heq⟩
    rw [hlive, mem_remove]
    refine ⟨hp, fun hc => hfree inc' hinc' ?_⟩
    rw [← heq, hc]
  · rw [hring]
    exact h.ring_nodup
  · simp [hpending]
  · simp [hscan]
  · simp [hscan]
  · simp [hscan]

theorem HandedOver.dequeue {s s' : TableState κ} {inc : Incarnation} {ring : List Incarnation}
    (h : HandedOver s) (hhead : s.tbl.timeoutEntries = inc :: ring) (hlive : s'.live = s.live)
    (hring : s'.tbl.timeoutEntries = ring) (hpending : s'.pending = some inc)
    (hscan : s'.scan = s.scan) : HandedOver s' := by
  have hnodup := h.ring_nodup
  rw [hhead, List.map_cons, List.nodup_cons] at hnodup
  have hmem : ∀ inc' ∈ ring, inc' ∈ s.tbl.timeoutEntries := by
    intro inc' hinc'
    rw [hhead]
    exact List.mem_cons_of_mem _ hinc'
  constructor
  · rw [hring, hlive]
    exact fun inc' hinc' => h.ring inc' (hmem inc' hinc')
  · rw [hring]
    exact hnodup.2
  · intro inc' hinc'
    rw [hpending] at hinc'
    obtain rfl := Option.mem_some_iff.1 hinc'
    rw [hring, hlive]
    refine ⟨h.ring inc (by simp [hhead]), fun inc' hinc' heq => hnodup.1 ?_⟩
    exact List.mem_map.2 ⟨inc', hinc', heq⟩
  · rw [hscan]
    exact h.todo_nodup
  · rw [hscan]
    intro scan hs e he
    obtain ⟨p, hp, heq⟩ := h.todo_live scan hs e he
    exact ⟨p, hlive ▸ hp, heq⟩
  · rw [hscan, hring]
    exact fun scan hs e he inc' hinc' => h.todo_ring scan hs e he inc' (hmem inc' hinc')

theorem Coherent.buckets_nodup {cfg : PtableConfig κ} {s : TableState κ} (h : Coherent cfg s)
    (n : ℕ) : ((List.range n).map s.tbl.entries).flatten.Nodup := by
  rw [List.nodup_flatten]
  refine ⟨?_, ?_⟩
  · intro l hl
    obtain ⟨i, -, rfl⟩ := List.mem_map.1 hl
    exact h.bucket_nodup i
  · rw [List.pairwise_map]
    refine (List.nodup_range (n := n)).imp ?_
    intro i j hne e hi hj
    obtain ⟨p, hp, hpe, hpi⟩ := (h.bucket i e).1 hi
    obtain ⟨q, hq, hqe, hqj⟩ := (h.bucket j e).1 hj
    have hpq : p = q := h.unique hp hq (hpe.trans hqe.symm)
    exact hne (hpi.symm.trans (hpq ▸ hqj))

theorem HandedOver.skip {s s' : TableState κ} {curTime : ℕ} {todo todo' : List (List ℕ)}
    (h : HandedOver s) (hscan : s.scan = some ⟨curTime, todo⟩)
    (hsub : todo'.flatten.Sublist todo.flatten) (hlive : s'.live = s.live)
    (hring : s'.tbl.timeoutEntries = s.tbl.timeoutEntries) (hpending : s'.pending = s.pending)
    (hscan' : s'.scan = some ⟨curTime, todo'⟩) : HandedOver s' := by
  constructor
  · rw [hring, hlive]
    exact h.ring
  · rw [hring]
    exact h.ring_nodup
  · rw [hring, hpending, hlive]
    exact h.pending
  · intro scan hs
    rw [hscan'] at hs
    obtain rfl := Option.mem_some_iff.1 hs
    exact (h.todo_nodup _ hscan).sublist hsub
  · intro scan hs e he
    rw [hscan'] at hs
    obtain rfl := Option.mem_some_iff.1 hs
    obtain ⟨p, hp, heq⟩ := h.todo_live _ hscan e (hsub.subset he)
    exact ⟨p, hlive ▸ hp, heq⟩
  · intro scan hs e he
    rw [hscan'] at hs
    obtain rfl := Option.mem_some_iff.1 hs
    rw [hring]
    exact h.todo_ring _ hscan e (hsub.subset he)

theorem HandedOver.enqueue {cfg : PtableConfig κ} {s : TableState κ} {curTime entry tv : ℕ}
    {bucket : List ℕ} {buckets : List (List ℕ)} (hc : Coherent cfg s) (h : HandedOver s)
    (hscan : s.scan = some ⟨curTime, (entry :: bucket) :: buckets⟩)
    (hpending : ∀ inc ∈ s.pending, inc.entry ≠ entry) :
    HandedOver { s with
      tbl := watchEnqueue s.tbl entry tv
      scan := some ⟨curTime, bucket :: buckets⟩ } := by
  have hnodup := h.todo_nodup _ hscan
  have hlive : s.IsLive entry := h.todo_live _ hscan entry (by simp)
  have hring : ∀ inc ∈ s.tbl.timeoutEntries, inc.entry ≠ entry :=
    h.todo_ring _ hscan entry (by simp)
  have htodo : ∀ e ∈ bucket ++ buckets.flatten, e ≠ entry := by
    intro e he heq
    simp only [List.flatten_cons, List.cons_append, List.nodup_cons] at hnodup
    exact hnodup.1 (heq ▸ he)
  constructor
  · intro inc hinc
    rcases List.mem_append.1 hinc with hinc | hinc
    · exact h.ring inc hinc
    · obtain rfl := List.mem_singleton.1 hinc
      obtain ⟨p, hp, rfl⟩ := hlive
      exact ⟨p, hp, (hc.current p hp).symm⟩
  · simp only [watchEnqueue, List.map_append, List.map_singleton, Ptable.incarnation]
    refine List.nodup_append'.2 ⟨h.ring_nodup, by simp, ?_⟩
    intro e he he'
    obtain ⟨inc, hinc, rfl⟩ := List.mem_map.1 he
    exact hring inc hinc (List.mem_singleton.1 he')
  · intro inc hinc
    refine ⟨(h.pending inc hinc).1, fun inc' hinc' => ?_⟩
    rcases List.mem_append.1 hinc' with hinc' | hinc'
    · exact (h.pending inc hinc).2 inc' hinc'
    · obtain rfl := List.mem_singleton.1 hinc'
      exact (hpending inc hinc).symm
  · intro scan hs
    obtain rfl := Option.mem_some_iff.1 hs
    exact hnodup.sublist (by simp)
  · intro scan hs e he
    obtain rfl := Option.mem_some_iff.1 hs
    exact h.todo_live _ hscan e (by simpa using Or.inr (by simpa using he))
  · intro scan hs e he inc hinc
    obtain rfl := Option.mem_some_iff.1 hs
    rcases List.mem_append.1 hinc with hinc | hinc
    · exact h.todo_ring _ hscan e (by simpa using Or.inr (by simpa using he)) inc hinc
    · obtain rfl := List.mem_singleton.1 hinc
      exact (htodo e (by simpa using he)).symm

structure TableInv (cfg : PtableConfig κ) (s : TableState κ) : Prop where
  coherent : Coherent cfg s
  handedOver : HandedOver s

theorem TableInv.scanNext {cfg : PtableConfig κ} {s : TableState κ} {curTime : ℕ}
    {todo : List (List ℕ)} (h : TableInv cfg s) (hscan : s.scan = some ⟨curTime, todo⟩)
    (hok : TableStepOk cfg s .scanNext) : TableInv cfg (s.scanNext cfg curTime todo) := by
  have hc := h.coherent
  match todo, hscan with
  | [], hscan =>
    refine ⟨hc.congr rfl rfl rfl (fun _ => rfl) (fun _ => rfl) hc.caches hc.caches_nodup
      hc.caches_length hc.last, ?_⟩
    constructor
    · exact h.handedOver.ring
    · exact h.handedOver.ring_nodup
    · exact h.handedOver.pending
    · simp [TableState.scanNext]
    · simp [TableState.scanNext]
    · simp [TableState.scanNext]
  | [] :: buckets, hscan =>
    exact ⟨hc.congr rfl rfl rfl (fun _ => rfl) (fun _ => rfl) hc.caches hc.caches_nodup
      hc.caches_length hc.last, h.handedOver.skip hscan (by simp) rfl rfl rfl rfl⟩
  | (entry :: bucket) :: buckets, hscan =>
    simp only [TableState.scanNext]
    split
    · exact ⟨hc.congr rfl rfl rfl (fun _ => rfl) (fun _ => rfl) hc.caches hc.caches_nodup
        hc.caches_length hc.last, h.handedOver.skip hscan (by simp) rfl rfl rfl rfl⟩
    · rename_i htv
      split
      · refine ⟨hc.congr rfl rfl rfl (fun _ => rfl) (fun _ => rfl) hc.caches hc.caches_nodup
          hc.caches_length hc.last, h.handedOver.skip hscan ?_ rfl rfl rfl rfl⟩
        simp only [List.flatten_cons]
        exact List.sublist_append_right _ _
      · rename_i hfull
        refine ⟨?_, h.handedOver.enqueue hc hscan fun inc hinc heq => ?_⟩
        · refine hc.congr rfl rfl rfl ?_ ?_ hc.caches hc.caches_nodup hc.caches_length hc.last
          · intro e
            by_cases he : e = entry <;> simp [watchEnqueue, he]
          · intro e
            by_cases he : e = entry <;> simp [watchEnqueue, he]
        · exact hok inc hinc ⟨curTime, bucket, buckets, heq ▸ hscan, heq ▸ htv, hfull⟩

theorem TableInv.step {cfg : PtableConfig κ} {s s' : TableState κ} {op : TableOp κ}
    (h : TableInv cfg s) (hok : TableStepOk cfg s op) (hs : TableStep cfg s op s') :
    TableInv cfg s' := by
  have hc := h.coherent
  have hh := h.handedOver
  cases hs with
  | create idle unlocked free =>
    refine ⟨hc.create _ _ free, hh.congr ?_ (create_timeoutEntries _ _ _ _ _) rfl rfl⟩
    exact fun p hp => List.mem_cons_of_mem _ hp
  | createFail idle =>
    exact ⟨hc.congr rfl rfl rfl (fun _ => rfl) (fun _ => rfl) hc.caches hc.caches_nodup
      hc.caches_length hc.last, hh.congr (fun _ hp => hp) rfl rfl rfl⟩
  | find idle =>
    exact ⟨(ptableEntryFind_spec hc _ _).1,
      hh.congr (fun _ hp => hp) (find_timeoutEntries _ _ _ _) rfl rfl⟩
  | @free entry idle unlocked =>
    obtain ⟨⟨p, hp, heq⟩, hring⟩ := hok
    have hentry : p.1.entry = entry := congrArg Incarnation.entry heq
    subst hentry
    have hlive : (s.free p.1.entry).live = s.live.remove p.1 := by
      rw [TableState.free, ← heq]
    exact ⟨hc.freed hp rfl hlive, hh.freed hring hlive rfl idle unlocked⟩
  | dequeue idle head =>
    exact ⟨hc.congr rfl rfl rfl (fun _ => rfl) (fun _ => rfl) hc.caches hc.caches_nodup
      hc.caches_length hc.last, hh.dequeue head rfl rfl rfl rfl⟩
  | timeoutFree head unlocked =>
    obtain ⟨⟨p, hp, rfl⟩, hring⟩ := hh.pending _ head
    exact ⟨hc.freed hp rfl rfl, hh.freed hring rfl rfl rfl unlocked⟩
  | scanStart unlocked drained =>
    refine ⟨hc.congr rfl rfl rfl (fun _ => rfl) (fun _ => rfl) hc.caches hc.caches_nodup
      hc.caches_length hc.last, ?_⟩
    constructor
    · exact hh.ring
    · exact hh.ring_nodup
    · exact hh.pending
    · intro scan hscan
      obtain rfl := Option.mem_some_iff.1 hscan
      exact hc.buckets_nodup _
    · intro scan hscan e he
      obtain rfl := Option.mem_some_iff.1 hscan
      obtain ⟨l, hl, he⟩ := List.mem_flatten.1 he
      obtain ⟨i, -, rfl⟩ := List.mem_map.1 hl
      obtain ⟨p, hp, heq, -⟩ := (hc.bucket i e).1 he
      exact ⟨p, hp, heq⟩
    · intro scan _ e _ inc hinc
      simp [drained] at hinc
  | scanNext curTime todo locked => exact h.scanNext locked hok

theorem TableInv.init (cfg : PtableConfig κ) {ep : List ℕ} (mem : ℕ → PtableEntry κ)
    (hep : ep.Nodup) : TableInv cfg (TableState.init ep mem) :=
  ⟨.init cfg mem hep, .init ep mem⟩

theorem TableInv.run {cfg : PtableConfig κ} {ep : List ℕ} {mem : ℕ → PtableEntry κ}
    {history : List (TableState κ × TableOp κ)} {s : TableState κ} (hep : ep.Nodup)
    (hrun : TableRun cfg ep mem history s) (hok : StepsOk (fun _ => TableStepOk cfg) history) :
    TableInv cfg s ∧ ∀ v ∈ history, TableInv cfg v.1 :=
  Run.stateInvariant (TableInv.init cfg mem hep) TableInv.step hrun hok

/-- The table answers as the finite map of its live entries does, and no tier holds
an entry outside the map. -/
structure RefinesMap (cfg : PtableConfig κ) (s : TableState κ) : Prop where
  found : ∀ key now, ∀ e ∈ (ptableEntryFind cfg s.tbl key now).1,
    ∃ p ∈ s.live, p.1 = s.tbl.incarnation e ∧ cfg.entryEqual p.2 key
  complete : ∀ key now, ∀ p ∈ s.live, cfg.entryEqual p.2 key →
    (ptableEntryFind cfg s.tbl key now).1.isSome
  exact : ∀ key now, ∀ p ∈ s.live, cfg.entryEqual p.2 key →
    (∀ q ∈ s.live, cfg.entryEqual q.2 key → q = p) →
    (ptableEntryFind cfg s.tbl key now).1 = some p.1.entry
  last : ∀ e ∈ s.tbl.lastEntry, s.IsLive e
  caches : ∀ e ∈ s.tbl.caches, s.IsLive e
  entries : ∀ i, ∀ e ∈ s.tbl.entries i, s.IsLive e

theorem Coherent.refinesMap {cfg : PtableConfig κ} {s : TableState κ} (h : Coherent cfg s) :
    RefinesMap cfg s := by
  have hcomplete : ∀ key now, ∀ p ∈ s.live, cfg.entryEqual p.2 key →
      (ptableEntryFind cfg s.tbl key now).1 ≠ none := by
    intro key now p hp heq hnone
    exact (ptableEntryFind_spec h key now).2.2 hnone p hp heq
  constructor
  · exact fun key now => (ptableEntryFind_spec h key now).2.1
  · exact fun key now p hp heq => Option.isSome_iff_ne_none.2 (hcomplete key now p hp heq)
  · intro key now p hp heq hunique
    obtain ⟨e, he⟩ := Option.ne_none_iff_exists'.1 (hcomplete key now p hp heq)
    obtain ⟨q, hq, hinc, hqeq⟩ := (ptableEntryFind_spec h key now).2.1 e he
    rw [he, ← hunique q hq hqeq, hinc]
    rfl
  · exact h.last
  · exact h.caches
  · intro i e he
    obtain ⟨p, hp, heq, -⟩ := (h.bucket i e).1 he
    exact ⟨p, hp, heq⟩

/-- After every run without an explicit free of a waiting entry, the session table
refines the map of the entries that were created and not freed. -/
theorem refinesMap_of_run (cfg : PtableConfig κ) (ep : List ℕ) (mem : ℕ → PtableEntry κ)
    (history : List (TableState κ × TableOp κ)) (s : TableState κ) (hep : ep.Nodup)
    (hrun : TableRun cfg ep mem history s) (hok : StepsOk (fun _ => TableStepOk cfg) history) :
    RefinesMap cfg s :=
  (TableInv.run hep hrun hok).1.coherent.refinesMap

def SlotLive (s : TableState κ) (inc : Incarnation) : Prop :=
  s.tbl.incarnation inc.entry = inc ∧ ∃ p ∈ s.live, p.1 = inc

/-- Every entry the worker takes from the ring, and every entry it frees, is live and
the incarnation that was meant. -/
structure SafeHandOver (history : List (TableState κ × TableOp κ)) : Prop where
  dequeued : ∀ s, (s, .dequeue) ∈ history → ∀ inc ∈ s.tbl.timeoutEntries.head?, SlotLive s inc
  expired : ∀ s, (s, .timeoutFree) ∈ history → ∀ inc ∈ s.pending, SlotLive s inc
  freed : ∀ s entry, (s, .free entry) ∈ history → SlotLive s (s.tbl.incarnation entry)

/-- In every run without an explicit free of a waiting entry, the hand-over is safe. -/
theorem safeHandOver_of_run (cfg : PtableConfig κ) (ep : List ℕ) (mem : ℕ → PtableEntry κ)
    (history : List (TableState κ × TableOp κ)) (s : TableState κ) (hep : ep.Nodup)
    (hrun : TableRun cfg ep mem history s) (hok : StepsOk (fun _ => TableStepOk cfg) history) :
    SafeHandOver history := by
  have hall := (TableInv.run hep hrun hok).2
  have hslot : ∀ s inc, TableInv cfg s → (∃ p ∈ s.live, p.1 = inc) → SlotLive s inc := by
    intro s inc hinv hlive
    obtain ⟨p, hp, rfl⟩ := hlive
    exact ⟨hinv.coherent.current p hp, p, hp, rfl⟩
  constructor
  · intro s hs inc hinc
    have hinv := hall _ hs
    exact hslot s inc hinv (hinv.handedOver.ring inc (List.mem_of_mem_head? hinc))
  · intro s hs inc hinc
    have hinv := hall _ hs
    exact hslot s inc hinv (hinv.handedOver.pending inc hinc).1
  · intro s entry hs
    obtain ⟨pre, post, heq⟩ := List.append_of_mem hs
    exact hslot s _ (hall _ hs) (hok pre s _ post heq).1

def smallConfig : PtableConfig ℕ where
  entryHash := id
  entryEqual a b := a == b
  tblMask := 0
  entryTimeout := 60
  nCachesLimits := 1
  ringSize := 2
  equal_symm := by simp [eq_comm]
  hash_coherent := by simp
  limits_pos := by decide

def emptyTable : TableState ℕ := TableState.init [0] fun _ => ⟨0, 0, 0, 0⟩

def afterCreate : TableState ℕ := emptyTable.create smallConfig 7 0 0

def scanStarted : TableState ℕ := { afterCreate with scan := some ⟨100, [[0]]⟩ }

def scanEnqueued : TableState ℕ := scanStarted.scanNext smallConfig 100 [[0]]

def scanAtEnd : TableState ℕ := scanEnqueued.scanNext smallConfig 100 [[]]

def afterScan : TableState ℕ := scanAtEnd.scanNext smallConfig 100 []

def waitingHistory : List (TableState ℕ × TableOp ℕ) :=
  [(emptyTable, .create 7 0 0), (afterCreate, .scanStart 100), (scanStarted, .scanNext),
    (scanEnqueued, .scanNext), (scanAtEnd, .scanNext)]

theorem waitingHistory_run :
    TableRun smallConfig [0] (fun _ => ⟨0, 0, 0, 0⟩) waitingHistory afterScan :=
  ((((Run.nil.snoc (.create rfl rfl (by simp [TableState.init, ptableCreate]))).snoc
    (.scanStart rfl rfl)).snoc (.scanNext 100 [[0]] rfl)).snoc (.scanNext 100 [[]] rfl)).snoc
    (.scanNext 100 [] rfl)

theorem waitingHistory_ok : StepsOk (fun _ => TableStepOk smallConfig) waitingHistory :=
  (((((StepsOk.nil _).snoc trivial).snoc trivial).snoc (fun _ h => nomatch h)).snoc
    (fun _ h => nomatch h)).snoc (fun _ h => nomatch h)

def afterDequeue (s : TableState ℕ) : TableState ℕ :=
  { s with tbl := { s.tbl with timeoutEntries := [] }, pending := some ⟨0, 1⟩ }

def expiryHistory : List (TableState ℕ × TableOp ℕ) :=
  waitingHistory ++ [(afterScan, .dequeue)] ++ [(afterDequeue afterScan, .timeoutFree)]

theorem expiryHistory_run :
    TableRun smallConfig [0] (fun _ => ⟨0, 0, 0, 0⟩) expiryHistory
      ((afterDequeue afterScan).timeoutFree ⟨0, 1⟩) :=
  (waitingHistory_run.snoc (.dequeue rfl rfl)).snoc (.timeoutFree rfl rfl)

theorem expiryHistory_ok : StepsOk (fun _ => TableStepOk smallConfig) expiryHistory := by
  have hdequeue : StepsOk (fun _ => TableStepOk smallConfig)
      (waitingHistory ++ [(afterScan, .dequeue)]) := waitingHistory_ok.snoc trivial
  exact hdequeue.snoc trivial

theorem refinesMap_waiting :
    TableRun smallConfig [0] (fun _ => ⟨0, 0, 0, 0⟩) waitingHistory afterScan ∧
      afterScan.live = [(⟨0, 1⟩, 7)] ∧ RefinesMap smallConfig afterScan :=
  ⟨waitingHistory_run, rfl,
    refinesMap_of_run _ _ _ _ _ (by simp) waitingHistory_run waitingHistory_ok⟩

theorem safeHandOver_expiry :
    TableRun smallConfig [0] (fun _ => ⟨0, 0, 0, 0⟩) expiryHistory
        ((afterDequeue afterScan).timeoutFree ⟨0, 1⟩) ∧
      SafeHandOver expiryHistory :=
  ⟨expiryHistory_run, safeHandOver_of_run _ _ _ _ _ (by simp) expiryHistory_run expiryHistory_ok⟩

/-- The waiting entry is freed explicitly, as on a reset, before the drain. -/
def resetHistory : List (TableState ℕ × TableOp ℕ) :=
  waitingHistory ++ [(afterScan, .free 0)] ++ [(afterScan.free 0, .dequeue)]

/-- The drain takes an entry from the ring that is not live any more. -/
theorem resetHistory_not_safe :
    TableRun smallConfig [0] (fun _ => ⟨0, 0, 0, 0⟩) resetHistory
        (afterDequeue (afterScan.free 0)) ∧
      ¬ SafeHandOver resetHistory := by
  refine ⟨(waitingHistory_run.snoc (.free rfl rfl)).snoc (.dequeue rfl rfl), fun h => ?_⟩
  obtain ⟨-, p, hp, -⟩ := h.dequeued (afterScan.free 0) (by simp [resetHistory]) ⟨0, 1⟩ rfl
  simp only [show (afterScan.free 0).live = [] from rfl, List.not_mem_nil] at hp

def afterReuse : TableState ℕ := (afterScan.free 0).create smallConfig 8 0 100

/-- The waiting entry is freed explicitly and its object serves a new entry. -/
def reuseHistory : List (TableState ℕ × TableOp ℕ) :=
  waitingHistory ++ [(afterScan, .free 0)] ++ [(afterScan.free 0, .create 8 0 100)] ++
    [(afterReuse, .dequeue)] ++ [(afterDequeue afterReuse, .timeoutFree)]

/-- The stale slot frees the new entry, which is live and found no more. -/
theorem reuseHistory_not_refinesMap :
    TableRun smallConfig [0] (fun _ => ⟨0, 0, 0, 0⟩) reuseHistory
        ((afterDequeue afterReuse).timeoutFree ⟨0, 1⟩) ∧
      ¬ RefinesMap smallConfig ((afterDequeue afterReuse).timeoutFree ⟨0, 1⟩) := by
  have hpool : 0 ∈ (afterScan.free 0).tbl.ep := by
    simp [TableState.free, ptableEntryFree, tblEntryFree]
  refine ⟨(((waitingHistory_run.snoc (.free rfl rfl)).snoc (.create rfl rfl hpool)).snoc
    (.dequeue rfl rfl)).snoc (.timeoutFree rfl rfl), fun h => ?_⟩
  have hfound := h.complete 8 100 (⟨0, 2⟩, 8) (by
    rw [show ((afterDequeue afterReuse).timeoutFree ⟨0, 1⟩).live = [(⟨0, 2⟩, 8)] from rfl]
    simp) (by decide)
  have hnone : (ptableEntryFind smallConfig
      ((afterDequeue afterReuse).timeoutFree ⟨0, 1⟩).tbl 8 100).1 = none := rfl
  simp [hnone] at hfound

end CloudHands.Table
