import CloudHands.Lib.Run
import CloudHands.Table.Ptable

/-!
# The worker and the watcher of a session table

The worker creates, finds and frees entries and drains the timeout ring; the watcher
of `ch_ptable_watch_task.c` fills the ring. A scan of the watcher holds the read lock
of the table, so that creating and freeing wait for its end, while finding and
dequeuing do not. Taking an entry from the ring and freeing it are two steps, since
only the second one needs the lock.

The entries that were created and not freed form a finite map from incarnations to
keys. An explicit free is meant for the present incarnation of the object, and a
timeout free for the incarnation the watcher put on the ring.
-/

namespace CloudHands.Table

open CloudHands.Lib

variable {κ : Type*}

abbrev LiveMap (κ : Type*) := List (Incarnation × κ)

def LiveMap.remove (live : LiveMap κ) (inc : Incarnation) : LiveMap κ :=
  live.filter fun p => p.1 ≠ inc

structure Scan where
  curTime : ℕ
  todo : List (List ℕ)
deriving DecidableEq, Repr

/-- `pending` is the entry the worker took from the ring and has not freed yet. -/
structure TableState (κ : Type*) where
  tbl : Ptable κ
  scan : Option Scan
  pending : Option Incarnation
  live : LiveMap κ

inductive TableOp (κ : Type*)
  | create (key : κ) (entry now : ℕ)
  | createFail (key : κ)
  | find (key : κ) (now : ℕ)
  | free (entry : ℕ)
  | dequeue
  | timeoutFree
  | scanStart (curTime : ℕ)
  | scanNext

def TableState.init (ep : List ℕ) (mem : ℕ → PtableEntry κ) : TableState κ :=
  { tbl := ptableCreate ep mem, scan := none, pending := none, live := [] }

def TableState.create (cfg : PtableConfig κ) (s : TableState κ) (key : κ) (entry now : ℕ) :
    TableState κ :=
  let tbl := ptableEntryCreate cfg s.tbl (some entry) key now
  { s with tbl := tbl, live := (tbl.incarnation entry, key) :: s.live }

def TableState.free (s : TableState κ) (entry : ℕ) : TableState κ :=
  { s with
    tbl := ptableEntryFree s.tbl entry
    live := s.live.remove (s.tbl.incarnation entry) }

def TableState.timeoutFree (s : TableState κ) (inc : Incarnation) : TableState κ :=
  { s with
    tbl := ptableTimeoutFree s.tbl inc.entry
    pending := none
    live := s.live.remove inc }

/-- One turn of the two loops of `_watch_ptable`. A full ring ends the bucket. -/
def TableState.scanNext (cfg : PtableConfig κ) (s : TableState κ) (curTime : ℕ) :
    List (List ℕ) → TableState κ
  | [] => { s with scan := none }
  | [] :: buckets => { s with scan := some ⟨curTime, buckets⟩ }
  | (entry :: bucket) :: buckets =>
    let tv := entryIsTimeout cfg (s.tbl.mem entry) curTime
    if tv = 0 then { s with scan := some ⟨curTime, bucket :: buckets⟩ }
    else if timeoutRingFull cfg s.tbl then { s with scan := some ⟨curTime, buckets⟩ }
    else { s with
      tbl := watchEnqueue s.tbl entry tv
      scan := some ⟨curTime, bucket :: buckets⟩ }

inductive TableStep (cfg : PtableConfig κ) : TableState κ → TableOp κ → TableState κ → Prop
  | create {s : TableState κ} {key : κ} {entry now : ℕ} (idle : s.pending = none)
      (unlocked : s.scan = none) (free : entry ∈ s.tbl.ep) :
      TableStep cfg s (.create key entry now) (s.create cfg key entry now)
  | createFail {s : TableState κ} {key : κ} (idle : s.pending = none) :
      TableStep cfg s (.createFail key) { s with tbl := ptableEntryCreate cfg s.tbl none key 0 }
  | find {s : TableState κ} {key : κ} {now : ℕ} (idle : s.pending = none) :
      TableStep cfg s (.find key now) { s with tbl := (ptableEntryFind cfg s.tbl key now).2 }
  | free {s : TableState κ} {entry : ℕ} (idle : s.pending = none) (unlocked : s.scan = none) :
      TableStep cfg s (.free entry) (s.free entry)
  | dequeue {s : TableState κ} {inc : Incarnation} {ring : List Incarnation}
      (idle : s.pending = none) (head : s.tbl.timeoutEntries = inc :: ring) :
      TableStep cfg s .dequeue
        { s with tbl := { s.tbl with timeoutEntries := ring }, pending := some inc }
  | timeoutFree {s : TableState κ} {inc : Incarnation} (head : s.pending = some inc)
      (unlocked : s.scan = none) : TableStep cfg s .timeoutFree (s.timeoutFree inc)
  | scanStart {s : TableState κ} {curTime : ℕ} (unlocked : s.scan = none)
      (drained : s.tbl.timeoutEntries = []) :
      TableStep cfg s (.scanStart curTime)
        { s with scan := some ⟨curTime, (List.range (cfg.tblMask + 1)).map s.tbl.entries⟩ }
  | scanNext {s : TableState κ} (curTime : ℕ) (todo : List (List ℕ))
      (locked : s.scan = some ⟨curTime, todo⟩) :
      TableStep cfg s .scanNext (s.scanNext cfg curTime todo)

def TableRun (cfg : PtableConfig κ) (ep : List ℕ) (mem : ℕ → PtableEntry κ) :
    List (TableState κ × TableOp κ) → TableState κ → Prop :=
  Run (TableStep cfg) (TableState.init ep mem)

def Enqueues (cfg : PtableConfig κ) (s : TableState κ) (entry : ℕ) : Prop :=
  ∃ curTime bucket buckets, s.scan = some ⟨curTime, (entry :: bucket) :: buckets⟩ ∧
    entryIsTimeout cfg (s.tbl.mem entry) curTime ≠ 0 ∧ ¬ timeoutRingFull cfg s.tbl

/-- An explicit free is for a live entry that does not wait in the timeout ring, and
the watcher does not enqueue an entry between its two steps out of the ring. -/
def TableStepOk (cfg : PtableConfig κ) (s : TableState κ) : TableOp κ → Prop
  | .free entry =>
    (∃ p ∈ s.live, p.1 = s.tbl.incarnation entry) ∧ ∀ inc ∈ s.tbl.timeoutEntries, inc.entry ≠ entry
  | .scanNext => ∀ inc ∈ s.pending, ¬ Enqueues cfg s inc.entry
  | _ => True

def TableState.IsLive (s : TableState κ) (entry : ℕ) : Prop := ∃ p ∈ s.live, p.1.entry = entry

structure Coherent (cfg : PtableConfig κ) (s : TableState κ) : Prop where
  nodup : (s.live.map fun p => p.1.entry).Nodup
  current : ∀ p ∈ s.live, s.tbl.incarnation p.1.entry = p.1
  key : ∀ p ∈ s.live, (s.tbl.mem p.1.entry).key = p.2
  bucket : ∀ i entry, entry ∈ s.tbl.entries i ↔
    ∃ p ∈ s.live, p.1.entry = entry ∧ ptableHeaderGet cfg p.2 = i
  bucket_nodup : ∀ i, (s.tbl.entries i).Nodup
  caches : ∀ entry ∈ s.tbl.caches, s.IsLive entry
  caches_nodup : s.tbl.caches.Nodup
  caches_length : s.tbl.nCaches = s.tbl.caches.length
  last : ∀ entry ∈ s.tbl.lastEntry, s.IsLive entry
  pool : ∀ entry ∈ s.tbl.ep, ¬ s.IsLive entry
  pool_nodup : s.tbl.ep.Nodup

structure HandedOver (s : TableState κ) : Prop where
  ring : ∀ inc ∈ s.tbl.timeoutEntries, ∃ p ∈ s.live, p.1 = inc
  ring_nodup : (s.tbl.timeoutEntries.map (·.entry)).Nodup
  pending : ∀ inc ∈ s.pending, (∃ p ∈ s.live, p.1 = inc) ∧
    ∀ inc' ∈ s.tbl.timeoutEntries, inc'.entry ≠ inc.entry
  todo_nodup : ∀ scan ∈ s.scan, scan.todo.flatten.Nodup
  todo_live : ∀ scan ∈ s.scan, ∀ entry ∈ scan.todo.flatten, s.IsLive entry
  todo_ring : ∀ scan ∈ s.scan, ∀ entry ∈ scan.todo.flatten,
    ∀ inc ∈ s.tbl.timeoutEntries, inc.entry ≠ entry

theorem Coherent.unique {cfg : PtableConfig κ} {s : TableState κ} (h : Coherent cfg s)
    {p q : Incarnation × κ} (hp : p ∈ s.live) (hq : q ∈ s.live) (heq : p.1.entry = q.1.entry) :
    p = q :=
  List.inj_on_of_nodup_map h.nodup hp hq heq

theorem mem_remove {live : LiveMap κ} {inc : Incarnation} {p : Incarnation × κ} :
    p ∈ live.remove inc ↔ p ∈ live ∧ p.1 ≠ inc := by
  simp [LiveMap.remove]

theorem Coherent.init (cfg : PtableConfig κ) {ep : List ℕ} (mem : ℕ → PtableEntry κ)
    (hep : ep.Nodup) : Coherent cfg (TableState.init ep mem) := by
  constructor <;> simp [TableState.init, ptableCreate, TableState.IsLive, hep]

theorem HandedOver.init (ep : List ℕ) (mem : ℕ → PtableEntry κ) :
    HandedOver (TableState.init ep mem) := by
  constructor <;> simp [TableState.init, ptableCreate]

@[simp] theorem cachesInsert_mem (cfg : PtableConfig κ) (tbl : Ptable κ) (entry : ℕ) :
    (ptableCachesInsert cfg tbl entry).mem = tbl.mem := by
  simp only [ptableCachesInsert]
  split <;> rfl

@[simp] theorem cachesInsert_entries (cfg : PtableConfig κ) (tbl : Ptable κ) (entry : ℕ) :
    (ptableCachesInsert cfg tbl entry).entries = tbl.entries := by
  simp only [ptableCachesInsert]
  split <;> rfl

@[simp] theorem cachesInsert_ep (cfg : PtableConfig κ) (tbl : Ptable κ) (entry : ℕ) :
    (ptableCachesInsert cfg tbl entry).ep = tbl.ep := by
  simp only [ptableCachesInsert]
  split <;> rfl

@[simp] theorem cachesInsert_timeoutEntries (cfg : PtableConfig κ) (tbl : Ptable κ) (entry : ℕ) :
    (ptableCachesInsert cfg tbl entry).timeoutEntries = tbl.timeoutEntries := by
  simp only [ptableCachesInsert]
  split <;> rfl

@[simp] theorem cachesInsert_lastEntry (cfg : PtableConfig κ) (tbl : Ptable κ) (entry : ℕ) :
    (ptableCachesInsert cfg tbl entry).lastEntry = tbl.lastEntry := by
  simp only [ptableCachesInsert]
  split <;> rfl

theorem cachesInsert_spec (cfg : PtableConfig κ) {tbl : Ptable κ} {entry : ℕ}
    (hnew : entry ∉ tbl.caches) (hnodup : tbl.caches.Nodup)
    (hlen : tbl.nCaches = tbl.caches.length) :
    (∀ e ∈ (ptableCachesInsert cfg tbl entry).caches, e = entry ∨ e ∈ tbl.caches) ∧
      (ptableCachesInsert cfg tbl entry).caches.Nodup ∧
      (ptableCachesInsert cfg tbl entry).nCaches =
        (ptableCachesInsert cfg tbl entry).caches.length := by
  by_cases hfull : cfg.nCachesLimits ≤ tbl.nCaches
  · have hins : ptableCachesInsert cfg tbl entry =
        { tbl with caches := entry :: tbl.caches.dropLast } := if_pos hfull
    have hsub : tbl.caches.dropLast ⊆ tbl.caches := (List.dropLast_sublist _).subset
    have hpos := cfg.limits_pos
    rw [hins]
    refine ⟨fun e he => ?_, ?_, ?_⟩
    · rcases List.mem_cons.1 he with he | he
      · exact Or.inl he
      · exact Or.inr (hsub he)
    · exact List.nodup_cons.2 ⟨fun hc => hnew (hsub hc), (List.dropLast_sublist _).nodup hnodup⟩
    · simp only [List.length_cons, List.length_dropLast]
      omega
  · have hins : ptableCachesInsert cfg tbl entry =
        { tbl with caches := entry :: tbl.caches, nCaches := tbl.nCaches + 1 } := if_neg hfull
    rw [hins]
    exact ⟨fun e he => List.mem_cons.1 he, List.nodup_cons.2 ⟨hnew, hnodup⟩, by simp [hlen]⟩

end CloudHands.Table
