import CloudHands.Lib.Guarded
import CloudHands.Lib.Links
import CloudHands.Table.Ptable

/-!
# The cache list of a session table

`ch_ptable.c` once more, with the cache list as the links of its entries and with any limit. An
operation has no result where it writes through a null link, or where the search of the cache list
does not come back to the head after `n_caches` entries.
-/

namespace CloudHands.Table

open Lib

variable {κ : Type*}

/-- What the operations read of the parameters of `ch_ptable_create`. -/
structure LruConfig (κ : Type*) where
  entryHash : κ → ℕ
  entryEqual : κ → κ → Bool
  tblMask : ℕ
  nCachesLimits : ℕ

structure LruTable (κ : Type*) where
  mem : ℕ → PtableEntry κ
  ep : List ℕ
  lastEntry : Option ℕ
  nCaches : ℕ
  caches : Links ℕ
  entries : ℕ → List ℕ
  tblStats : PtableStat

namespace LruTable

def create (ep : List ℕ) (mem : ℕ → PtableEntry κ) : LruTable κ :=
  { mem := mem, ep := ep, lastEntry := none, nCaches := 0, caches := .empty
    entries := fun _ => [], tblStats := ⟨0, 0, 0, 0⟩ }

def headerGet (cfg : LruConfig κ) (key : κ) : ℕ := cfg.entryHash key &&& cfg.tblMask

/-- `_ptable_entry_equal`. -/
def entryEqual (cfg : LruConfig κ) (tbl : LruTable κ) (key : κ) (entry : ℕ) : Bool :=
  cfg.entryEqual (tbl.mem entry).key key

/-- `lru_node_empty`. -/
def lruNodeEmpty (tbl : LruTable κ) (entry : ℕ) : Bool :=
  (tbl.caches.prev (.entry entry)).isNone && (tbl.caches.next (.entry entry)).isNone

/-- `tbl_entry_free`. -/
def entryFree (tbl : LruTable κ) (entry isTimeout : ℕ) : LruTable κ :=
  { tbl with
    entries := fun i => (tbl.entries i).erase entry
    caches := if tbl.lruNodeEmpty entry then tbl.caches else tbl.caches.del (.entry entry)
    nCaches := if tbl.lruNodeEmpty entry then tbl.nCaches else tbl.nCaches - 1
    lastEntry := if tbl.lastEntry = some entry then none else tbl.lastEntry
    tblStats :=
      if isTimeout = 0 then tbl.tblStats
      else { tbl.tblStats with timeoutNum := tbl.tblStats.timeoutNum + 1 }
    ep := tbl.ep ++ [entry] }

def lastTimeUpdate (tbl : LruTable κ) (entry now : ℕ) : LruTable κ :=
  { tbl with mem := Function.update tbl.mem entry { tbl.mem entry with lastTime := now } }

/-- `_ptable_caches_insert`; the node that makes room is the head where the list is empty. -/
def cachesInsert (cfg : LruConfig κ) (tbl : LruTable κ) (entry : ℕ) : Option (LruTable κ) :=
  if cfg.nCachesLimits ≤ tbl.nCaches then
    (tbl.caches.prev .head).bind fun last =>
      ((tbl.caches.del last).add (.entry entry)).map fun caches => { tbl with caches := caches }
  else
    (tbl.caches.add (.entry entry)).map fun caches =>
      { tbl with caches := caches, nCaches := tbl.nCaches + 1 }

/-- `_ptable_entry_init`, with `_ptable_insert`. -/
def entryInit (cfg : LruConfig κ) (tbl : LruTable κ) (entry : ℕ) (key : κ) (now : ℕ) :
    Option (LruTable κ) :=
  let tbl := tbl.lastTimeUpdate entry now
  let h := headerGet cfg key
  cachesInsert cfg
    { tbl with
      lastEntry := some entry
      entries := Function.update tbl.entries h (entry :: tbl.entries h) }
    entry

/-- `ch_ptable_entry_create` of an object that the pool hands out, or of nothing. -/
def entryCreate (cfg : LruConfig κ) (tbl : LruTable κ) (entry : Option ℕ) (key : κ) (now : ℕ) :
    Option (LruTable κ) :=
  match entry with
  | none => some { tbl with tblStats := { tbl.tblStats with failNum := tbl.tblStats.failNum + 1 } }
  | some entry =>
    let obj := { tbl.mem entry with key := key, number := (tbl.mem entry).number + 1 }
    entryInit cfg { tbl with ep := tbl.ep.erase entry, mem := Function.update tbl.mem entry obj }
      entry key now

/-- The first test of `ch_ptable_entry_find`, on the entry found last. -/
def findFromLast (cfg : LruConfig κ) (tbl : LruTable κ) (key : κ) : Option ℕ × LruTable κ :=
  match tbl.lastEntry.filter (tbl.entryEqual cfg key) with
  | none => (none, tbl)
  | some entry =>
    (some entry, { tbl with tblStats := { tbl.tblStats with hitsNum := tbl.tblStats.hitsNum + 1 } })

/-- `_ptable_entry_find_from_caches`. -/
def findFromCaches (cfg : LruConfig κ) (tbl : LruTable κ) (key : κ) :
    Option (Option ℕ × LruTable κ) :=
  (tbl.caches.find (tbl.entryEqual cfg key) (tbl.nCaches + 1) (tbl.caches.next .head)).bind
    fun found =>
    match found with
    | none => some (none, tbl)
    | some entry =>
      (if tbl.caches.next .head = some (.entry entry) then some tbl.caches
        else (tbl.caches.del (.entry entry)).add (.entry entry)).map fun caches =>
        (some entry,
          { tbl with
            tblStats := { tbl.tblStats with hitsNum := tbl.tblStats.hitsNum + 1 }
            caches := caches
            lastEntry := some entry })

/-- `_ptable_entry_find`. -/
def findFromEntries (cfg : LruConfig κ) (tbl : LruTable κ) (key : κ) :
    Option (Option ℕ × LruTable κ) :=
  match (tbl.entries (headerGet cfg key)).find? (tbl.entryEqual cfg key) with
  | none => some (none, tbl)
  | some entry =>
    (cachesInsert cfg tbl entry).map fun tbl =>
      (some entry,
        { tbl with
          lastEntry := some entry
          tblStats := { tbl.tblStats with noHitsNum := tbl.tblStats.noHitsNum + 1 } })

def orElseFind (r : Option ℕ × LruTable κ) (find : LruTable κ → Option (Option ℕ × LruTable κ)) :
    Option (Option ℕ × LruTable κ) :=
  match r.1 with
  | some _ => some r
  | none => find r.2

/-- `ch_ptable_entry_find`. -/
def entryFind (cfg : LruConfig κ) (tbl : LruTable κ) (key : κ) (now : ℕ) :
    Option (Option ℕ × LruTable κ) :=
  let found := (orElseFind (findFromLast cfg tbl key) (findFromCaches cfg · key)).bind
    (orElseFind · (findFromEntries cfg · key))
  found.map fun r =>
    match r.1 with
    | some entry => (some entry, r.2.lastTimeUpdate entry now)
    | none => r

end LruTable

/-- A table with the entries that were created and not freed, and the time of the last use of each
entry, which is counted in uses. -/
structure LruUse (κ : Type*) where
  tbl : LruTable κ
  live : List ℕ
  clock : ℕ
  lastUse : ℕ → ℕ

inductive LruOp (κ : Type*)
  | create (key : κ) (entry : Option ℕ) (now : ℕ)
  | find (key : κ) (now : ℕ)
  | free (entry isTimeout : ℕ)

def LruUse.init (ep : List ℕ) (mem : ℕ → PtableEntry κ) : LruUse κ :=
  ⟨.create ep mem, [], 0, fun _ => 0⟩

def LruUse.use (u : LruUse κ) (entry : Option ℕ) : LruUse κ :=
  match entry with
  | none => u
  | some entry =>
    { u with clock := u.clock + 1, lastUse := Function.update u.lastUse entry u.clock }

def LruUse.step (cfg : LruConfig κ) (u : LruUse κ) : LruOp κ → Option (LruUse κ)
  | .create key entry now =>
    (u.tbl.entryCreate cfg entry key now).map fun tbl =>
      { u with tbl := tbl, live := entry.toList ++ u.live }.use entry
  | .find key now =>
    (u.tbl.entryFind cfg key now).map fun r => { u with tbl := r.2 }.use r.1
  | .free entry isTimeout =>
    some { u with tbl := u.tbl.entryFree entry isTimeout, live := u.live.erase entry }

/-- The contracts: the pool hands out one of its objects, and only live entries are freed. -/
def LruUse.Allows (u : LruUse κ) : LruOp κ → Prop
  | .create _ entry _ => ∀ e ∈ entry, e ∈ u.tbl.ep
  | .find _ _ => True
  | .free entry _ => entry ∈ u.live

instance decidableLruAllows (u : LruUse κ) : (op : LruOp κ) → Decidable (u.Allows op)
  | .create _ entry _ => inferInstanceAs (Decidable (∀ e ∈ entry, e ∈ u.tbl.ep))
  | .find _ _ => inferInstanceAs (Decidable True)
  | .free entry _ => inferInstanceAs (Decidable (entry ∈ u.live))

def LruTable.Linked (tbl : LruTable κ) (entry : ℕ) : Prop :=
  ∃ cached, tbl.caches.Ring cached ∧ entry ∈ cached

/-- The links are a ring of live entries, each of them once, which `n_caches` counts and the limit
bounds. -/
structure LruUse.Sound (cfg : LruConfig κ) (u : LruUse κ) (cached : List ℕ) : Prop where
  ring : u.tbl.caches.Ring cached
  count : u.tbl.nCaches = cached.length
  limit : u.tbl.nCaches ≤ cfg.nCachesLimits
  live : ∀ e ∈ cached, e ∈ u.live

/-- An entry that a step drops from a full cache without freeing it was the least recently used. -/
def EvictsOldest (cfg : LruConfig κ) (u : LruUse κ) (op : LruOp κ) (u' : LruUse κ) : Prop :=
  ∀ e, u.tbl.Linked e → ¬ u'.tbl.Linked e → (∀ isTimeout, op ≠ .free e isTimeout) →
    u.tbl.nCaches = cfg.nCachesLimits ∧ ∀ e', u.tbl.Linked e' → e' ≠ e → u.lastUse e < u.lastUse e'

end CloudHands.Table
