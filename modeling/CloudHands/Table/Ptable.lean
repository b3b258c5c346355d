import CloudHands.Lib.Word
import Mathlib.Logic.Function.Basic
import Mathlib.Data.List.Nodup

/-!
# The session table

`ch_ptable.c`. An entry is the address of its pool object, and its content is
looked up in the object memory `mem`, which keeps the old content of a freed
object. The intrusive lists of the source are lists of addresses: a node whose
links are null is an address that is not in the list. An entry is compared through
the key it was created with. The entry callbacks work on the application part of
the object and are left out.

`number` counts the incarnations of an object, and a slot of the timeout ring
remembers the number of the entry it was filled with. Both are for the statements
only; no operation looks at them.
-/

namespace CloudHands.Table

open CloudHands.Word (sub)

variable {κ : Type*}

structure Incarnation where
  entry : ℕ
  number : ℕ
deriving DecidableEq, Repr

/-- `ch_ptable_entry_t` with the key of the application part. -/
structure PtableEntry (κ : Type*) where
  key : κ
  lastTime : ℕ
  tv : ℕ
  number : ℕ
deriving DecidableEq, Repr

structure PtableStat where
  hitsNum : ℕ
  noHitsNum : ℕ
  failNum : ℕ
  timeoutNum : ℕ
deriving DecidableEq, Repr

/-- The parameters of `ch_ptable_create`. The configuration commands refuse a cache
limit of zero. -/
structure PtableConfig (κ : Type*) where
  entryHash : κ → ℕ
  entryEqual : κ → κ → Bool
  tblMask : ℕ
  entryTimeout : ℕ
  nCachesLimits : ℕ
  ringSize : ℕ
  equal_symm : ∀ a b, entryEqual a b = entryEqual b a
  hash_coherent : ∀ a b, entryEqual a b → entryHash a = entryHash b
  limits_pos : 0 < nCachesLimits

structure Ptable (κ : Type*) where
  mem : ℕ → PtableEntry κ
  ep : List ℕ
  timeoutEntries : List Incarnation
  lastEntry : Option ℕ
  nCaches : ℕ
  caches : List ℕ
  entries : ℕ → List ℕ
  tblStats : PtableStat

def ptableHeaderGet (cfg : PtableConfig κ) (key : κ) : ℕ := cfg.entryHash key &&& cfg.tblMask

def ptableCreate (ep : List ℕ) (mem : ℕ → PtableEntry κ) : Ptable κ :=
  { mem := mem, ep := ep, timeoutEntries := [], lastEntry := none, nCaches := 0, caches := []
    entries := fun _ => [], tblStats := ⟨0, 0, 0, 0⟩ }

def Ptable.incarnation (tbl : Ptable κ) (entry : ℕ) : Incarnation :=
  ⟨entry, (tbl.mem entry).number⟩

/-- `tbl_entry_free`; the object goes back to the pool. -/
def tblEntryFree (tbl : Ptable κ) (entry isTimeout : ℕ) : Ptable κ :=
  { tbl with
    entries := fun i => (tbl.entries i).erase entry
    caches := tbl.caches.erase entry
    nCaches := if entry ∈ tbl.caches then tbl.nCaches - 1 else tbl.nCaches
    lastEntry := if tbl.lastEntry = some entry then none else tbl.lastEntry
    tblStats :=
      if isTimeout = 0 then tbl.tblStats
      else { tbl.tblStats with timeoutNum := tbl.tblStats.timeoutNum + 1 }
    ep := tbl.ep ++ [entry] }

def entryLastTimeUpdate (tbl : Ptable κ) (entry now : ℕ) : Ptable κ :=
  { tbl with mem := Function.update tbl.mem entry { tbl.mem entry with lastTime := now } }

def ptableInsert (cfg : PtableConfig κ) (tbl : Ptable κ) (entry : ℕ) (key : κ) : Ptable κ :=
  let h := ptableHeaderGet cfg key
  { tbl with entries := Function.update tbl.entries h (entry :: tbl.entries h) }

def ptableCachesInsert (cfg : PtableConfig κ) (tbl : Ptable κ) (entry : ℕ) : Ptable κ :=
  if cfg.nCachesLimits ≤ tbl.nCaches then
    -- the last entry of the list makes room
    { tbl with caches := entry :: tbl.caches.dropLast }
  else { tbl with caches := entry :: tbl.caches, nCaches := tbl.nCaches + 1 }

def ptableEntryInit (cfg : PtableConfig κ) (tbl : Ptable κ) (entry : ℕ) (key : κ) (now : ℕ) :
    Ptable κ :=
  let tbl := entryLastTimeUpdate tbl entry now
  let tbl := { tbl with lastEntry := some entry }
  ptableCachesInsert cfg (ptableInsert cfg tbl entry key) entry

/-- `ch_ptable_entry_create`. The pool hands out `entry`, one of its free objects, or
nothing; the caller then fills in the application part, which holds the key. -/
def ptableEntryCreate (cfg : PtableConfig κ) (tbl : Ptable κ) (entry : Option ℕ) (key : κ)
    (now : ℕ) : Ptable κ :=
  match entry with
  | none => { tbl with tblStats := { tbl.tblStats with failNum := tbl.tblStats.failNum + 1 } }
  | some entry =>
    let obj := { tbl.mem entry with key := key, number := (tbl.mem entry).number + 1 }
    let tbl := { tbl with ep := tbl.ep.erase entry, mem := Function.update tbl.mem entry obj }
    ptableEntryInit cfg tbl entry key now

def ptableEntryFree (tbl : Ptable κ) (entry : ℕ) : Ptable κ := tblEntryFree tbl entry 0

def ptableEntryEqual (cfg : PtableConfig κ) (tbl : Ptable κ) (key : κ) (entry : ℕ) : Bool :=
  cfg.entryEqual (tbl.mem entry).key key

def ptableEntryFindFromCaches (cfg : PtableConfig κ) (tbl : Ptable κ) (key : κ) :
    Option ℕ × Ptable κ :=
  match tbl.caches.find? (ptableEntryEqual cfg tbl key) with
  | none => (none, tbl)
  | some entry =>
    (some entry,
      { tbl with
        tblStats := { tbl.tblStats with hitsNum := tbl.tblStats.hitsNum + 1 }
        caches :=
          if tbl.caches.head? = some entry then tbl.caches else entry :: tbl.caches.erase entry
        lastEntry := some entry })

/-- `_ptable_entry_find`, the search in the hash bucket. -/
def ptableEntryFindFromEntries (cfg : PtableConfig κ) (tbl : Ptable κ) (key : κ) :
    Option ℕ × Ptable κ :=
  match (tbl.entries (ptableHeaderGet cfg key)).find? (ptableEntryEqual cfg tbl key) with
  | none => (none, tbl)
  | some entry =>
    (some entry,
      { ptableCachesInsert cfg tbl entry with
        lastEntry := some entry
        tblStats := { tbl.tblStats with noHitsNum := tbl.tblStats.noHitsNum + 1 } })

/-- The first test of `ch_ptable_entry_find`, on the entry found last. -/
def ptableEntryFindFromLast (cfg : PtableConfig κ) (tbl : Ptable κ) (key : κ) :
    Option ℕ × Ptable κ :=
  match tbl.lastEntry.filter (ptableEntryEqual cfg tbl key) with
  | none => (none, tbl)
  | some entry =>
    (some entry, { tbl with tblStats := { tbl.tblStats with hitsNum := tbl.tblStats.hitsNum + 1 } })

def orElseFind (r : Option ℕ × Ptable κ) (find : Ptable κ → Option ℕ × Ptable κ) :
    Option ℕ × Ptable κ :=
  match r.1 with
  | some _ => r
  | none => find r.2

def ptableEntryFind (cfg : PtableConfig κ) (tbl : Ptable κ) (key : κ) (now : ℕ) :
    Option ℕ × Ptable κ :=
  let r := ptableEntryFindFromLast cfg tbl key
  let r := orElseFind r (ptableEntryFindFromCaches cfg · key)
  let r := orElseFind r (ptableEntryFindFromEntries cfg · key)
  match r.1 with
  | some entry => (some entry, entryLastTimeUpdate r.2 entry now)
  | none => r

/-- `_entry_is_timeout`: how long the entry has been idle, zero while it is in time. -/
def entryIsTimeout (cfg : PtableConfig κ) (e : PtableEntry κ) (curTime : ℕ) : ℕ :=
  let tv := sub 64 curTime e.lastTime
  if cfg.entryTimeout < tv then tv else 0

/-- A ring of `ring_size` slots keeps one of them free. -/
def timeoutRingFull (cfg : PtableConfig κ) (tbl : Ptable κ) : Bool :=
  decide (cfg.ringSize - 1 ≤ tbl.timeoutEntries.length)

/-- The body of the inner loop of `_watch_ptable` for an idle entry. -/
def watchEnqueue (tbl : Ptable κ) (entry tv : ℕ) : Ptable κ :=
  { tbl with
    mem := Function.update tbl.mem entry { tbl.mem entry with tv := tv }
    timeoutEntries := tbl.timeoutEntries ++ [tbl.incarnation entry] }

/-- `tbl_entry_free` as `ch_ptable_entries_timeout_free` calls it. -/
def ptableTimeoutFree (tbl : Ptable κ) (entry : ℕ) : Ptable κ :=
  let tv := (tbl.mem entry).tv
  tblEntryFree tbl entry (if tv ≤ 0 then 1 else tv)

end CloudHands.Table
