import CloudHands.Table.HandOver

/-!
# Expiry of idle entries

Runs of the worker and the watcher against one clock. The worker stamps an entry with the
time at which it creates or finds it. The watcher reads the clock before it takes the lock
of the table, so its time may be behind the clock during the whole scan, and an entry that
is found meanwhile has a stamp ahead of it. The subtraction of the two is unsigned.
-/

namespace CloudHands.Table

open CloudHands.Lib
open CloudHands.Word (sub)

variable {κ : Type*}

structure TimedState (κ : Type*) where
  table : TableState κ
  clock : ℕ

/-- The time an operation works with, when it is made at `now`. -/
def TableOp.Stamped (now : ℕ) : TableOp κ → Prop
  | .create _ _ t => t = now
  | .find _ t => t = now
  | .scanStart curTime => curTime ≤ now
  | _ => True

inductive TimedStep (cfg : PtableConfig κ) :
    TimedState κ → TableOp κ × ℕ → TimedState κ → Prop
  | mk {s s' : TableState κ} {op : TableOp κ} {clock now : ℕ} (step : TableStep cfg s op s')
      (later : clock ≤ now) (stamped : op.Stamped now) :
      TimedStep cfg ⟨s, clock⟩ (op, now) ⟨s', now⟩

def TimedRun (cfg : PtableConfig κ) (ep : List ℕ) (mem : ℕ → PtableEntry κ) (start : ℕ) :
    List (TimedState κ × TableOp κ × ℕ) → TimedState κ → Prop :=
  Run (TimedStep cfg) ⟨TableState.init ep mem, start⟩

def touchedBy (cfg : PtableConfig κ) (s : TableState κ) : TableOp κ → Option ℕ
  | .create _ entry _ => some entry
  | .find key now => (ptableEntryFind cfg s.tbl key now).1
  | _ => none

/-- An entry that the drain frees, or has in its hands to free, was given no packet for longer
than the timeout. -/
def OnlyIdle (cfg : PtableConfig κ) (history : List (TimedState κ × TableOp κ × ℕ)) : Prop :=
  ∀ pre s now post, history = pre ++ (s, .timeoutFree, now) :: post →
    ∀ inc ∈ s.table.pending, ∀ v ∈ pre, touchedBy cfg v.1.table v.2.1 = some inc.entry →
      v.2.2 + cfg.entryTimeout < now

def Queued (s : TableState κ) (entry : ℕ) : Prop :=
  (∃ inc ∈ s.tbl.timeoutEntries, inc.entry = entry) ∨ ∃ inc ∈ s.pending, inc.entry = entry

/-- No packet is given to an entry that is queued, and the watcher does not queue an entry
whose stamp is ahead of the watcher's time. -/
def IdleStepOk (cfg : PtableConfig κ) (s : TimedState κ) (op : TableOp κ × ℕ) : Prop :=
  (∀ entry ∈ touchedBy cfg s.table op.1, ¬ Queued s.table entry) ∧
    match op.1 with
    | .scanNext => ∀ scan ∈ s.table.scan, ∀ entry, Enqueues cfg s.table entry →
        (s.table.tbl.mem entry).lastTime ≤ scan.curTime
    | _ => True

theorem create_lastTime (cfg : PtableConfig κ) (tbl : Ptable κ) (key : κ) (entry now e : ℕ) :
    ((ptableEntryCreate cfg tbl (some entry) key now).mem e).lastTime =
      if e = entry then now else (tbl.mem e).lastTime := by
  by_cases he : e = entry
  · simp [ptableEntryCreate, ptableEntryInit, ptableInsert, entryLastTimeUpdate, he]
  · rw [create_mem_of_ne cfg tbl key now he, if_neg he]

theorem find_lastTime (cfg : PtableConfig κ) (tbl : Ptable κ) (key : κ) (now e : ℕ) :
    ((ptableEntryFind cfg tbl key now).2.mem e).lastTime =
      if (ptableEntryFind cfg tbl key now).1 = some e then now else (tbl.mem e).lastTime := by
  have htiers : (findTiers cfg tbl key).2.mem = tbl.mem := by
    refine findTiers_keeps cfg key (fun tbl => ?_) (fun tbl => ?_) (fun tbl => ?_) tbl
    · simp only [ptableEntryFindFromLast]
      split <;> rfl
    · simp only [ptableEntryFindFromCaches]
      split <;> rfl
    · simp only [ptableEntryFindFromEntries]
      split <;> simp
  cases hr : (findTiers cfg tbl key).1 with
  | none =>
    rw [ptableEntryFind_of_none now hr, htiers, hr]
    rfl
  | some entry =>
    rw [ptableEntryFind_of_some now hr, entryLastTimeUpdate, htiers]
    by_cases he : e = entry
    · simp [he]
    · simp [he, Ne.symm he]

theorem scanNext_lastTime (cfg : PtableConfig κ) (s : TableState κ) (curTime : ℕ)
    (todo : List (List ℕ)) (e : ℕ) :
    ((s.scanNext cfg curTime todo).tbl.mem e).lastTime = (s.tbl.mem e).lastTime := by
  rcases todo with _ | ⟨_ | ⟨entry, bucket⟩, buckets⟩
  · rfl
  · rfl
  · simp only [TableState.scanNext]
    split
    · rfl
    · split
      · rfl
      · by_cases he : e = entry
        · simp [watchEnqueue, he]
        · simp [watchEnqueue, he]

theorem scanNext_queued {cfg : PtableConfig κ} {s : TableState κ} {curTime : ℕ}
    {todo : List (List ℕ)} (hscan : s.scan = some ⟨curTime, todo⟩) {e : ℕ}
    (h : Queued (s.scanNext cfg curTime todo) e) : Queued s e ∨ Enqueues cfg s e := by
  rcases todo with _ | ⟨_ | ⟨entry, bucket⟩, buckets⟩
  · exact Or.inl h
  · exact Or.inl h
  · simp only [TableState.scanNext] at h
    split at h
    · exact Or.inl h
    · rename_i hidle
      split at h
      · exact Or.inl h
      · rename_i hfull
        rcases h with ⟨inc, hinc, rfl⟩ | hpending
        · rcases List.mem_append.1 hinc with hold | hnew
          · exact Or.inl (Or.inl ⟨inc, hold, rfl⟩)
          · obtain rfl := List.mem_singleton.1 hnew
            exact Or.inr ⟨curTime, bucket, buckets, hscan, hidle, hfull⟩
        · exact Or.inl (Or.inr hpending)

theorem scanNext_curTime {cfg : PtableConfig κ} {s : TableState κ} {curTime : ℕ}
    {todo : List (List ℕ)} {scan : Scan}
    (h : scan ∈ (s.scanNext cfg curTime todo).scan) : scan.curTime = curTime := by
  rcases todo with _ | ⟨_ | ⟨entry, bucket⟩, buckets⟩
  · cases h
  · obtain rfl := Option.some.inj h
    rfl
  · simp only [TableState.scanNext] at h
    split at h
    · obtain rfl := Option.some.inj h
      rfl
    · split at h
      · obtain rfl := Option.some.inj h
        rfl
      · obtain rfl := Option.some.inj h
        rfl

theorem TableStep.lastTime {cfg : PtableConfig κ} {s s' : TableState κ} {op : TableOp κ}
    (h : TableStep cfg s op s') {now : ℕ} (hstamped : op.Stamped now) (e : ℕ) :
    (s'.tbl.mem e).lastTime =
      if touchedBy cfg s op = some e then now else (s.tbl.mem e).lastTime := by
  cases h with
  | @create key entry t idle unlocked free =>
    obtain rfl := hstamped
    rw [TableState.create, create_lastTime, touchedBy]
    simp only [Option.some.injEq, eq_comm]
  | createFail => rfl
  | find =>
    obtain rfl := hstamped
    exact find_lastTime cfg s.tbl _ _ e
  | free => rfl
  | dequeue => rfl
  | timeoutFree => rfl
  | scanStart => rfl
  | scanNext curTime todo => exact scanNext_lastTime cfg s curTime todo e

theorem TableStep.queued {cfg : PtableConfig κ} {s s' : TableState κ} {op : TableOp κ}
    (h : TableStep cfg s op s') {e : ℕ} (hqueued : Queued s' e) :
    Queued s e ∨ (op = .scanNext ∧ Enqueues cfg s e) := by
  cases h with
  | create =>
    rw [Queued, TableState.create, create_timeoutEntries] at hqueued
    exact Or.inl hqueued
  | createFail => exact Or.inl hqueued
  | find =>
    rw [Queued, find_timeoutEntries] at hqueued
    exact Or.inl hqueued
  | free => exact Or.inl hqueued
  | @dequeue inc ring _ head =>
    rcases hqueued with ⟨inc', hinc', rfl⟩ | ⟨inc', hinc', rfl⟩
    · exact Or.inl (Or.inl ⟨inc', by rw [head]; exact List.mem_cons_of_mem _ hinc', rfl⟩)
    · obtain rfl := Option.some.inj hinc'
      exact Or.inl (Or.inl ⟨inc, by rw [head]; exact List.mem_cons_self, rfl⟩)
  | timeoutFree =>
    rcases hqueued with hring | ⟨inc', hinc', -⟩
    · exact Or.inl (Or.inl hring)
    · cases hinc'
  | scanStart => exact Or.inl hqueued
  | scanNext curTime todo locked =>
    exact (scanNext_queued locked hqueued).imp id fun henq => ⟨rfl, henq⟩

theorem TableStep.curTime {cfg : PtableConfig κ} {s s' : TableState κ} {op : TableOp κ}
    (h : TableStep cfg s op s') {now : ℕ} (hstamped : op.Stamped now) {scan : Scan}
    (hscan : scan ∈ s'.scan) : scan.curTime ≤ now ∨ ∃ old ∈ s.scan, old.curTime = scan.curTime := by
  cases h with
  | create => exact Or.inr ⟨scan, hscan, rfl⟩
  | createFail => exact Or.inr ⟨scan, hscan, rfl⟩
  | find => exact Or.inr ⟨scan, hscan, rfl⟩
  | free => exact Or.inr ⟨scan, hscan, rfl⟩
  | dequeue => exact Or.inr ⟨scan, hscan, rfl⟩
  | timeoutFree => exact Or.inr ⟨scan, hscan, rfl⟩
  | scanStart =>
    obtain rfl := Option.some.inj hscan
    exact Or.inl hstamped
  | scanNext curTime todo locked => exact Or.inr ⟨_, locked, (scanNext_curTime hscan).symm⟩

theorem sub_le_of_le {w a b : ℕ} (h : b ≤ a) : sub w a b ≤ a - b := by
  have hpos : 0 < 2 ^ w := by positivity
  have hmod : sub w a b = (a - b) % 2 ^ w := by
    have hb := Nat.mod_lt b hpos
    have hsplit := Nat.div_add_mod b (2 ^ w)
    have hshift : a + (2 ^ w - b % 2 ^ w) = a - b + 2 ^ w * (b / 2 ^ w + 1) := by
      rw [Nat.mul_add]
      omega
    rw [sub, hshift, Nat.add_mul_mod_self_left]
  rw [hmod]
  exact Nat.mod_le _ _

theorem idle_of_enqueues {cfg : PtableConfig κ} {e : PtableEntry κ} {curTime : ℕ}
    (hle : e.lastTime ≤ curTime) (h : entryIsTimeout cfg e curTime ≠ 0) :
    e.lastTime + cfg.entryTimeout < curTime := by
  have htv : cfg.entryTimeout < sub 64 curTime e.lastTime := by
    by_contra hnot
    exact h (if_neg hnot)
  have hsub : sub 64 curTime e.lastTime ≤ curTime - e.lastTime := sub_le_of_le hle
  omega

structure IdleInv (cfg : PtableConfig κ) (history : List (TimedState κ × TableOp κ × ℕ))
    (s : TimedState κ) : Prop where
  past : ∀ v ∈ history, v.2.2 ≤ s.clock
  touched : ∀ v ∈ history, ∀ entry, touchedBy cfg v.1.table v.2.1 = some entry →
    v.2.2 ≤ (s.table.tbl.mem entry).lastTime
  scan : ∀ scan ∈ s.table.scan, scan.curTime ≤ s.clock
  queued : ∀ entry, Queued s.table entry →
    (s.table.tbl.mem entry).lastTime + cfg.entryTimeout < s.clock
  onlyIdle : OnlyIdle cfg history

theorem IdleInv.init (cfg : PtableConfig κ) (ep : List ℕ) (mem : ℕ → PtableEntry κ) (start : ℕ) :
    IdleInv cfg [] ⟨TableState.init ep mem, start⟩ where
  past := by simp
  touched := by simp
  scan := by simp [TableState.init]
  queued := by simp [Queued, TableState.init, ptableCreate]
  onlyIdle := by
    intro pre s now post h
    simp at h

theorem OnlyIdle.snoc {cfg : PtableConfig κ} {history : List (TimedState κ × TableOp κ × ℕ)}
    {s : TimedState κ} {op : TableOp κ × ℕ} (h : OnlyIdle cfg history)
    (hop : op.1 = .timeoutFree → ∀ inc ∈ s.table.pending, ∀ v ∈ history,
      touchedBy cfg v.1.table v.2.1 = some inc.entry → v.2.2 + cfg.entryTimeout < op.2) :
    OnlyIdle cfg (history ++ [(s, op)]) := by
  intro pre s' now post heq
  rcases List.eq_nil_or_concat post with rfl | ⟨post', v, rfl⟩
  · obtain ⟨rfl, hlast⟩ := List.append_inj' heq rfl
    obtain ⟨rfl, rfl⟩ : s = s' ∧ op = (.timeoutFree, now) := by simpa using hlast
    exact hop rfl
  · have heq' : history ++ [(s, op)] = (pre ++ (s', .timeoutFree, now) :: post') ++ [v] := by
      simpa using heq
    exact h pre s' now post' (List.append_inj' heq' rfl).1

theorem IdleInv.step {cfg : PtableConfig κ} {history : List (TimedState κ × TableOp κ × ℕ)}
    {s s' : TimedState κ} {op : TableOp κ × ℕ} (h : IdleInv cfg history s)
    (hok : IdleStepOk cfg s op) (hstep : TimedStep cfg s op s') :
    IdleInv cfg (history ++ [(s, op)]) s' := by
  cases hstep with
  | @mk s s' op clock now step later stamped =>
    have hpast : ∀ v ∈ history, v.2.2 ≤ now := fun v hv => (h.past v hv).trans later
    have hlast := step.lastTime stamped
    constructor
    · intro v hv
      rcases List.mem_append.1 hv with hold | hnew
      · exact hpast v hold
      · obtain rfl := List.mem_singleton.1 hnew
        exact le_rfl
    · intro v hv entry htouch
      rw [hlast]
      split
      · rcases List.mem_append.1 hv with hold | hnew
        · exact hpast v hold
        · obtain rfl := List.mem_singleton.1 hnew
          exact le_rfl
      · rename_i hnot
        rcases List.mem_append.1 hv with hold | hnew
        · exact h.touched v hold entry htouch
        · obtain rfl := List.mem_singleton.1 hnew
          exact absurd htouch hnot
    · intro scan hscan
      rcases step.curTime stamped hscan with hle | ⟨old, hold, heq⟩
      · exact hle
      · rw [← heq]
        exact (h.scan old hold).trans later
    · intro entry hqueued
      rw [hlast]
      rcases step.queued hqueued with hwas | ⟨rfl, henq⟩
      · -- the entry was queued before, so the step gives it no packet
        have hnot : touchedBy cfg s op ≠ some entry := fun htouch => hok.1 entry htouch hwas
        rw [if_neg hnot]
        exact (h.queued entry hwas).trans_le later
      · obtain ⟨curTime, bucket, buckets, hscan, hidle, -⟩ := id henq
        have hahead := hok.2 ⟨curTime, (entry :: bucket) :: buckets⟩ hscan entry henq
        have hcur := h.scan _ hscan
        rw [if_neg nofun]
        exact ((idle_of_enqueues hahead hidle).trans_le hcur).trans_le later
    · refine h.onlyIdle.snoc fun hop inc hinc v hv htouch => ?_
      have hbefore := h.touched v hv inc.entry htouch
      have hqueued := h.queued inc.entry (Or.inr ⟨inc, hinc, rfl⟩)
      exact (Nat.add_le_add_right hbefore _).trans_lt (hqueued.trans_le later)

theorem onlyIdle_of_run (cfg : PtableConfig κ) (ep : List ℕ) (mem : ℕ → PtableEntry κ)
    (start : ℕ) (history : List (TimedState κ × TableOp κ × ℕ)) (s : TimedState κ)
    (hrun : TimedRun cfg ep mem start history s)
    (hok : StepsOk (fun _ => IdleStepOk cfg) history) : OnlyIdle cfg history := by
  have hinv : IdleInv cfg history s :=
    hrun.invariant (IdleInv.init cfg ep mem start) (fun hinv hok hstep => hinv.step hok hstep) hok
  exact hinv.onlyIdle

/-- An entry of `smallConfig` is created, the watcher reads the clock at 100 and starts. -/
def startHistory : List (TimedState ℕ × TableOp ℕ × ℕ) :=
  [(⟨emptyTable, 0⟩, .create 7 0 0, 0), (⟨afterCreate, 0⟩, .scanStart 100, 100)]

theorem create_step : TableStep smallConfig emptyTable (.create 7 0 0) afterCreate :=
  .create rfl rfl (List.mem_singleton_self 0)

theorem startHistory_run :
    TimedRun smallConfig [0] (fun _ => ⟨0, 0, 0, 0⟩) 0 startHistory ⟨scanStarted, 100⟩ :=
  (Run.nil.snoc (.mk create_step le_rfl rfl)).snoc
    (.mk (.scanStart rfl rfl) (Nat.zero_le 100) (le_refl 100))

def scanned (s : TableState ℕ) : TableState ℕ :=
  ((s.scanNext smallConfig 100 [[0]]).scanNext smallConfig 100 [[]]).scanNext smallConfig 100 []

def scanHistory (s : TableState ℕ) (now : ℕ) : List (TimedState ℕ × TableOp ℕ × ℕ) :=
  let queued := s.scanNext smallConfig 100 [[0]]
  [(⟨s, now⟩, .scanNext, now), (⟨queued, now⟩, .scanNext, now),
    (⟨queued.scanNext smallConfig 100 [[]], now⟩, .scanNext, now)]

def drainHistory (s : TableState ℕ) (now : ℕ) : List (TimedState ℕ × TableOp ℕ × ℕ) :=
  [(⟨s, now⟩, .dequeue, now), (⟨afterDequeue s, now⟩, .timeoutFree, now)]

def idleHistory : List (TimedState ℕ × TableOp ℕ × ℕ) :=
  startHistory ++ scanHistory scanStarted 100 ++ drainHistory afterScan 100

theorem idleHistory_run :
    ∃ s, TimedRun smallConfig [0] (fun _ => ⟨0, 0, 0, 0⟩) 0 idleHistory s :=
  ⟨_, ((((startHistory_run.snoc (.mk (.scanNext 100 [[0]] rfl) le_rfl trivial)).snoc
    (.mk (.scanNext 100 [[]] rfl) le_rfl trivial)).snoc
    (.mk (.scanNext 100 [] rfl) le_rfl trivial)).snoc
    (.mk (.dequeue rfl rfl) le_rfl trivial)).snoc (.mk (.timeoutFree rfl rfl) le_rfl trivial)⟩

theorem idleHistory_ok : StepsOk (fun _ => IdleStepOk smallConfig) idleHistory := by
  have hcreate : IdleStepOk smallConfig ⟨emptyTable, 0⟩ (.create 7 0 0, 0) := by
    refine ⟨?_, trivial⟩
    rintro entry - (⟨inc, hinc, -⟩ | ⟨inc, hinc, -⟩)
    · cases hinc
    · cases hinc
  have hvisit : IdleStepOk smallConfig ⟨scanStarted, 100⟩ (.scanNext, 100) := by
    refine ⟨nofun, ?_⟩
    rintro scan hscan entry ⟨curTime, bucket, buckets, hcur, -⟩
    cases hscan
    cases hcur
    exact Nat.zero_le 100
  -- in the other two turns the scan visits no entry
  have hturn : ∀ s : TableState ℕ, s.scan = some ⟨100, [[]]⟩ ∨ s.scan = some ⟨100, []⟩ →
      IdleStepOk smallConfig ⟨s, 100⟩ (.scanNext, 100) := by
    intro s hs
    refine ⟨nofun, ?_⟩
    rintro scan - entry ⟨curTime, bucket, buckets, hcur, -⟩
    change s.scan = _ at hcur
    rcases hs with hs | hs
    · cases hs.symm.trans hcur
    · cases hs.symm.trans hcur
  exact (((((((StepsOk.nil _).snoc hcreate).snoc ⟨nofun, trivial⟩).snoc hvisit).snoc
    (hturn scanEnqueued (Or.inl rfl))).snoc (hturn scanAtEnd (Or.inr rfl))).snoc
    ⟨nofun, trivial⟩).snoc ⟨nofun, trivial⟩

theorem onlyIdle_expiry :
    ∃ s, TimedRun smallConfig [0] (fun _ => ⟨0, 0, 0, 0⟩) 0 idleHistory s ∧
      OnlyIdle smallConfig idleHistory := by
  obtain ⟨s, hrun⟩ := idleHistory_run
  exact ⟨s, hrun, onlyIdle_of_run smallConfig [0] (fun _ => ⟨0, 0, 0, 0⟩) 0 idleHistory s hrun
    idleHistory_ok⟩

def found (s : TableState ℕ) (now : ℕ) : TableState ℕ :=
  { s with tbl := (ptableEntryFind smallConfig s.tbl 7 now).2 }

/-- The packet comes at 101, while the watcher goes through the table with the time 100. -/
def aheadHistory : List (TimedState ℕ × TableOp ℕ × ℕ) :=
  (startHistory ++ [(⟨scanStarted, 100⟩, .find 7 101, 101)] ++
    scanHistory (found scanStarted 101) 101) ++ drainHistory (scanned (found scanStarted 101)) 101

/-- The packet comes when the entry waits in the ring already. -/
def lateHistory : List (TimedState ℕ × TableOp ℕ × ℕ) :=
  (startHistory ++ scanHistory scanStarted 100 ++ [(⟨afterScan, 100⟩, .find 7 100, 100)]) ++
    drainHistory (found afterScan 100) 100

theorem aheadHistory_run :
    ∃ s, TimedRun smallConfig [0] (fun _ => ⟨0, 0, 0, 0⟩) 0 aheadHistory s :=
  ⟨_, (((((startHistory_run.snoc (.mk (.find rfl) (Nat.le_succ 100) rfl)).snoc
    (.mk (.scanNext 100 [[0]] rfl) le_rfl trivial)).snoc
    (.mk (.scanNext 100 [[]] rfl) le_rfl trivial)).snoc
    (.mk (.scanNext 100 [] rfl) le_rfl trivial)).snoc
    (.mk (.dequeue rfl rfl) le_rfl trivial)).snoc (.mk (.timeoutFree rfl rfl) le_rfl trivial)⟩

theorem lateHistory_run :
    ∃ s, TimedRun smallConfig [0] (fun _ => ⟨0, 0, 0, 0⟩) 0 lateHistory s :=
  ⟨_, (((((startHistory_run.snoc (.mk (.scanNext 100 [[0]] rfl) le_rfl trivial)).snoc
    (.mk (.scanNext 100 [[]] rfl) le_rfl trivial)).snoc
    (.mk (.scanNext 100 [] rfl) le_rfl trivial)).snoc (.mk (.find rfl) le_rfl rfl)).snoc
    (.mk (.dequeue rfl rfl) le_rfl trivial)).snoc (.mk (.timeoutFree rfl rfl) le_rfl trivial)⟩

theorem not_onlyIdle {history : List (TimedState ℕ × TableOp ℕ × ℕ)} {s : TableState ℕ} {now : ℕ}
    {v : TimedState ℕ × TableOp ℕ × ℕ} (hv : v ∈ history)
    (htouch : touchedBy smallConfig v.1.table v.2.1 = some 0) (htime : now ≤ v.2.2) :
    ¬ OnlyIdle smallConfig (history ++ drainHistory s now) := by
  intro h
  have hidle := h (history ++ [(⟨s, now⟩, .dequeue, now)]) ⟨afterDequeue s, now⟩ now []
    (by simp [drainHistory]) ⟨0, 1⟩ rfl v (List.mem_append_left _ hv) htouch
  omega

/-- An entry is freed in the second of a packet, which may come before or after the watcher
queues the entry. -/
theorem active_entries_expire :
    ((∃ s, TimedRun smallConfig [0] (fun _ => ⟨0, 0, 0, 0⟩) 0 aheadHistory s) ∧
      ¬ OnlyIdle smallConfig aheadHistory) ∧
    ((∃ s, TimedRun smallConfig [0] (fun _ => ⟨0, 0, 0, 0⟩) 0 lateHistory s) ∧
      ¬ OnlyIdle smallConfig lateHistory) := by
  refine ⟨⟨aheadHistory_run, ?_⟩, ⟨lateHistory_run, ?_⟩⟩
  · apply not_onlyIdle
    · exact List.mem_append_left _ (List.mem_append_right _ List.mem_cons_self)
    · rfl
    · exact le_rfl
  · apply not_onlyIdle
    · exact List.mem_append_right _ List.mem_cons_self
    · rfl
    · exact le_rfl

end CloudHands.Table
