import CloudHands.Lib.Word
import Mathlib.Logic.Function.Basic
import Mathlib.Data.List.Nodup
import Mathlib.Tactic

/-!
# Lists of entries that time out

`ch_plist.c`. As in the session table, an entry is the address of a pool object and the
intrusive list is a list of addresses. A list without an `entry_clean` callback; the timeout
callback works on a state of its own and has no result when it follows a stale reference.
-/

namespace CloudHands.Table

open CloudHands.Word (sub)

variable {α τ : Type*}

/-- `ch_plist_entry_t` with the application part. -/
structure PlistEntry (α : Type*) where
  lastTime : ℕ
  app : α
deriving DecidableEq, Repr

structure Plist (α : Type*) where
  mem : ℕ → PlistEntry α
  ep : List ℕ
  entries : List ℕ
  lastEntry : Option ℕ
  entryTimeout : ℕ
  lastCleanTime : ℕ

def plistCreate (ep : List ℕ) (mem : ℕ → PlistEntry α) (entryTimeout now : ℕ) : Plist α :=
  { mem := mem, ep := ep, entries := [], lastEntry := none, entryTimeout := entryTimeout
    lastCleanTime := now }

/-- `_entry_is_timeout`: how long the entry has been idle, zero while it is in time. -/
def Plist.entryIsTimeout (l : Plist α) (entry curTime : ℕ) : ℕ :=
  let tv := sub 64 curTime (l.mem entry).lastTime
  if l.entryTimeout < tv then tv else 0

/-- What `_entry_free` does to the list itself. -/
def Plist.free (l : Plist α) (entry : ℕ) : Plist α :=
  { l with
    entries := l.entries.erase entry
    lastEntry := if l.lastEntry = some entry then none else l.lastEntry
    ep := l.ep ++ [entry] }

/-- `_entry_free`. -/
def plistEntryFree (timeoutCb : α → τ → Option τ) (l : Plist α) (t : τ) (entry isTimeout : ℕ) :
    Option (Plist α × τ) :=
  if isTimeout = 0 then some (l.free entry, t)
  else (timeoutCb (l.mem entry).app t).map fun t => (l.free entry, t)

/-- The loop of `_entries_timeout_free`, over the entries there are when it starts. -/
def plistFreeIdle (timeoutCb : α → τ → Option τ) (curTime : ℕ) :
    List ℕ → Plist α → τ → Option (Plist α × τ)
  | [], l, t => some (l, t)
  | entry :: rest, l, t =>
    let tv := l.entryIsTimeout entry curTime
    if tv = 0 then plistFreeIdle timeoutCb curTime rest l t
    else do
      let (l, t) ← plistEntryFree timeoutCb l t entry tv
      plistFreeIdle timeoutCb curTime rest l t

/-- `ch_plist_entries_timeout_free` without a `need_free`. -/
def plistEntriesTimeoutFree (timeoutCb : α → τ → Option τ) (l : Plist α) (t : τ) (curTime : ℕ) :
    Option (Plist α × τ) :=
  if l.entries = [] then some (l, t)
  else if sub 64 curTime l.lastCleanTime < l.entryTimeout then some (l, t)
  else plistFreeIdle timeoutCb curTime l.entries { l with lastCleanTime := curTime } t

def Plist.link (l : Plist α) (entry now : ℕ) : Plist α :=
  { l with
    mem := Function.update l.mem entry { l.mem entry with lastTime := now }
    ep := l.ep.erase entry
    entries := entry :: l.entries
    lastEntry := some entry }

/-- `ch_plist_entry_create`. The pool hands out its free object number `pick`, and `retry`
after the idle entries have been freed; there is no object with a number too large, and the
allocation fails. -/
def plistEntryCreate (timeoutCb : α → τ → Option τ) (l : Plist α) (t : τ) (pick retry now : ℕ) :
    Option (Option ℕ × Plist α × τ) :=
  match l.ep[pick]? with
  | some entry => some (some entry, l.link entry now, t)
  | none => do
    let (l, t) ← plistFreeIdle timeoutCb now l.entries l t
    match l.ep[retry]? with
    | some entry => some (some entry, l.link entry now, t)
    | none => some (none, l, t)

def Plist.setApp (l : Plist α) (entry : ℕ) (app : α) : Plist α :=
  { l with mem := Function.update l.mem entry { l.mem entry with app := app } }

/-- The first test of `ch_plist_entry_find`, on the entry used last. -/
def Plist.findFromLast (l : Plist α) (equal : α → Option Bool) : Option (Option ℕ) :=
  match l.lastEntry with
  | none => some none
  | some entry => (equal (l.mem entry).app).map fun eq => if eq then some entry else none

def Plist.touch (l : Plist α) (entry now : ℕ) : Plist α :=
  { l with
    mem := Function.update l.mem entry { l.mem entry with lastTime := now }
    entries := entry :: l.entries.erase entry
    lastEntry := some entry }

def Plist.findFromEntries (l : Plist α) (equal : α → Option Bool) : List ℕ → Option (Option ℕ)
  | [] => some none
  | entry :: rest =>
    match equal (l.mem entry).app with
    | none => none
    | some true => some (some entry)
    | some false => l.findFromEntries equal rest

def plistEntryFind (equal : α → Option Bool) (l : Plist α) (now : ℕ) :
    Option (Option ℕ × Plist α) :=
  match l.findFromLast equal with
  | none => none
  | some (some entry) => some (some entry, l.touch entry now)
  | some none =>
    match l.findFromEntries equal l.entries with
    | none => none
    | some none => some (none, l)
    | some (some entry) => some (some entry, l.touch entry now)

def Plist.apps (l : Plist α) : List α := l.entries.map fun entry => (l.mem entry).app

structure Plist.Ok (l : Plist α) : Prop where
  nodup : l.entries.Nodup
  pool_nodup : l.ep.Nodup
  pool : ∀ entry ∈ l.ep, entry ∉ l.entries
  last : ∀ entry ∈ l.lastEntry, entry ∈ l.entries

theorem plistCreate_ok {ep : List ℕ} (hep : ep.Nodup) (mem : ℕ → PlistEntry α)
    (entryTimeout now : ℕ) : (plistCreate ep mem entryTimeout now).Ok where
  nodup := List.nodup_nil
  pool_nodup := hep
  pool _ _ := List.not_mem_nil
  last _ h := nomatch h

theorem Plist.Ok.free {l : Plist α} (h : l.Ok) {entry : ℕ} (he : entry ∈ l.entries) :
    (l.free entry).Ok where
  nodup := h.nodup.erase entry
  pool_nodup := by
    have hfresh : entry ∉ l.ep := fun hmem => h.pool entry hmem he
    refine List.nodup_append.2 ⟨h.pool_nodup, List.nodup_singleton entry, ?_⟩
    rintro e hmem _ hlast rfl
    exact hfresh (List.mem_singleton.1 hlast ▸ hmem)
  pool := by
    intro e hmem hlisted
    obtain ⟨hne, hlisted⟩ := h.nodup.mem_erase_iff.1 hlisted
    rcases List.mem_append.1 hmem with hmem | hmem
    · exact h.pool e hmem hlisted
    · exact hne (List.mem_singleton.1 hmem)
  last := by
    intro e hlast
    simp only [Plist.free] at hlast ⊢
    split at hlast
    · cases hlast
    · rename_i hne
      refine h.nodup.mem_erase_iff.2 ⟨?_, h.last e hlast⟩
      rintro rfl
      exact hne hlast

theorem Plist.Ok.link {l : Plist α} (h : l.Ok) {entry : ℕ} (he : entry ∈ l.ep) (now : ℕ) :
    (l.link entry now).Ok where
  nodup := List.nodup_cons.2 ⟨h.pool entry he, h.nodup⟩
  pool_nodup := h.pool_nodup.erase entry
  pool := by
    intro e hmem hlisted
    obtain ⟨hne, hmem⟩ := h.pool_nodup.mem_erase_iff.1 hmem
    rcases List.mem_cons.1 hlisted with rfl | hlisted
    · exact hne rfl
    · exact h.pool e hmem hlisted
  last := by
    intro e hlast
    obtain rfl := Option.mem_some_iff.1 hlast
    exact List.mem_cons_self

theorem Plist.touch_perm {l : Plist α} {entry : ℕ} (he : entry ∈ l.entries) (now : ℕ) :
    (l.touch entry now).entries.Perm l.entries := (List.perm_cons_erase he).symm

theorem Plist.Ok.touch {l : Plist α} (h : l.Ok) {entry : ℕ} (he : entry ∈ l.entries) (now : ℕ) :
    (l.touch entry now).Ok where
  nodup := (Plist.touch_perm he now).nodup_iff.2 h.nodup
  pool_nodup := h.pool_nodup
  pool e hmem hlisted := h.pool e hmem ((Plist.touch_perm he now).mem_iff.1 hlisted)
  last := by
    intro e hlast
    obtain rfl := Option.mem_some_iff.1 hlast
    exact List.mem_cons_self

theorem Plist.Ok.setApp {l : Plist α} (h : l.Ok) (entry : ℕ) (app : α) : (l.setApp entry app).Ok :=
  ⟨h.nodup, h.pool_nodup, h.pool, h.last⟩

theorem update_lastTime_app (mem : ℕ → PlistEntry α) (entry now e : ℕ) :
    (Function.update mem entry { mem entry with lastTime := now } e).app = (mem e).app := by
  rw [Function.update_apply]
  split
  · rename_i h
    rw [h]
  · rfl

theorem Plist.apps_touch {l : Plist α} {entry : ℕ} (he : entry ∈ l.entries) (now : ℕ) :
    (l.touch entry now).apps.Perm l.apps := by
  have hsame : (l.touch entry now).apps =
      (entry :: l.entries.erase entry).map fun e => (l.mem e).app :=
    List.map_congr_left fun e _ => update_lastTime_app l.mem entry now e
  rw [hsame]
  exact (List.perm_cons_erase he).symm.map _

theorem Plist.apps_link_setApp {l : Plist α} (h : l.Ok) {entry : ℕ} (he : entry ∈ l.ep) (now : ℕ)
    (app : α) : ((l.link entry now).setApp entry app).apps = app :: l.apps := by
  have hfresh := h.pool entry he
  simp only [Plist.apps, Plist.setApp, Plist.link, List.map_cons, Function.update_self]
  congr 1
  refine List.map_congr_left fun e hmem => ?_
  have hne : e ≠ entry := by
    rintro rfl
    exact hfresh hmem
  rw [Function.update_of_ne hne, Function.update_of_ne hne]

theorem Plist.apps_free {l : Plist α} {entry : ℕ} (he : entry ∈ l.entries) :
    l.apps.Perm ((l.mem entry).app :: (l.free entry).apps) :=
  (List.perm_cons_erase he).map _

theorem plistEntryFree_of_timeout {timeoutCb : α → τ → Option τ} {l : Plist α} {t t' : τ}
    {entry tv : ℕ} (htv : tv ≠ 0) (hcb : timeoutCb (l.mem entry).app t = some t') :
    plistEntryFree timeoutCb l t entry tv = some (l.free entry, t') := by
  rw [plistEntryFree, if_neg htv, hcb]
  rfl

theorem plistFreeIdle_rule {timeoutCb : α → τ → Option τ} {P : Plist α → τ → Prop}
    (hfree : ∀ l t entry, P l t → entry ∈ l.entries →
      ∃ t', timeoutCb (l.mem entry).app t = some t' ∧ P (l.free entry) t')
    (curTime : ℕ) (es : List ℕ) {l : Plist α} {t : τ} (hnodup : es.Nodup)
    (hes : ∀ e ∈ es, e ∈ l.entries) (h : P l t) :
    ∃ l' t', plistFreeIdle timeoutCb curTime es l t = some (l', t') ∧ P l' t' ∧
      l'.ep = l.ep ++ es.filter fun e => l.entryIsTimeout e curTime ≠ 0 := by
  induction es generalizing l t with
  | nil => exact ⟨l, t, rfl, h, by simp⟩
  | cons e es ih =>
    obtain ⟨hnot, hnodup⟩ := List.nodup_cons.1 hnodup
    obtain ⟨he, hes⟩ := List.forall_mem_cons.1 hes
    simp only [plistFreeIdle]
    split
    · rename_i htv
      obtain ⟨l', t', heq, hP, hep⟩ := ih hnodup hes h
      exact ⟨l', t', heq, hP, by simpa [htv] using hep⟩
    · rename_i htv
      obtain ⟨t', hcb, hP⟩ := hfree l t e h he
      have hrest : ∀ e' ∈ es, e' ∈ (l.free e).entries := by
        intro e' hmem
        refine (List.mem_erase_of_ne ?_).2 (hes e' hmem)
        rintro rfl
        exact hnot hmem
      obtain ⟨l'', t'', heq, hP', hep⟩ := ih hnodup hrest hP
      refine ⟨l'', t'', ?_, hP', ?_⟩
      · rw [plistEntryFree_of_timeout htv hcb]
        exact heq
      · rw [hep, List.filter_cons_of_pos (by simpa using htv)]
        exact List.append_assoc _ _ _

/-- There is an object for a new entry, at once or after the idle entries have been freed. -/
def Plist.HasRoom (l : Plist α) (pick retry now : ℕ) : Prop :=
  pick < l.ep.length ∨
    retry < (l.ep ++ l.entries.filter fun e => l.entryIsTimeout e now ≠ 0).length

instance (l : Plist α) (pick retry now : ℕ) : Decidable (l.HasRoom pick retry now) :=
  inferInstanceAs (Decidable (_ ∨ _))

theorem plistEntryCreate_rule {timeoutCb : α → τ → Option τ} {P : Plist α → τ → Prop}
    (hok : ∀ l t, P l t → l.Ok)
    (hfree : ∀ l t entry, P l t → entry ∈ l.entries →
      ∃ t', timeoutCb (l.mem entry).app t = some t' ∧ P (l.free entry) t')
    {l : Plist α} {t : τ} (h : P l t) {pick retry now : ℕ} (hroom : l.HasRoom pick retry now) :
    ∃ entry l' t', plistEntryCreate timeoutCb l t pick retry now =
        some (some entry, l'.link entry now, t') ∧ P l' t' ∧ entry ∈ l'.ep := by
  unfold plistEntryCreate
  split
  · rename_i entry hentry
    exact ⟨entry, l, t, rfl, h, List.mem_of_getElem? hentry⟩
  · rename_i hnone
    obtain ⟨l', t', heq, hP, hep⟩ := plistFreeIdle_rule hfree now l.entries (hok l t h).nodup
      (fun _ he => he) h
    have hlt : retry < l'.ep.length := by
      rw [hep]
      exact hroom.resolve_left (not_lt.2 (List.getElem?_eq_none_iff.1 hnone))
    refine ⟨l'.ep[retry], l', t', ?_, hP, List.getElem_mem hlt⟩
    rw [heq]
    simp [List.getElem?_eq_getElem hlt]

theorem plistEntryFind_rule {equal : α → Option Bool} {l : Plist α} (h : l.Ok) (now : ℕ)
    (hequal : ∀ app ∈ l.apps, ∃ eq, equal app = some eq) :
    plistEntryFind equal l now = some (none, l) ∨
      ∃ entry ∈ l.entries, plistEntryFind equal l now = some (some entry, l.touch entry now) := by
  have hentry : ∀ e ∈ l.entries, ∃ eq, equal (l.mem e).app = some eq :=
    fun e he => hequal _ (List.mem_map_of_mem he)
  have hlast : ∃ r, l.findFromLast equal = some r ∧ ∀ e ∈ r, e ∈ l.entries := by
    unfold Plist.findFromLast
    split
    · exact ⟨none, rfl, by simp⟩
    · rename_i e he
      obtain ⟨eq, heq⟩ := hentry e (h.last e he)
      refine ⟨if eq then some e else none, by rw [heq]; rfl, ?_⟩
      intro e' he'
      cases eq with
      | false => cases he'
      | true => exact Option.some.inj he' ▸ h.last e he
  have hsearch : ∀ es : List ℕ, (∀ e ∈ es, e ∈ l.entries) →
      ∃ r, l.findFromEntries equal es = some r ∧ ∀ e ∈ r, e ∈ l.entries := by
    intro es
    induction es with
    | nil => exact fun _ => ⟨none, rfl, by simp⟩
    | cons e es ih =>
      intro hes
      obtain ⟨he, hes⟩ := List.forall_mem_cons.1 hes
      obtain ⟨eq, heq⟩ := hentry e he
      rw [Plist.findFromEntries, heq]
      cases eq with
      | false => exact ih hes
      | true => exact ⟨some e, rfl, fun e' he' => Option.some.inj he' ▸ he⟩
  obtain ⟨r, hr, hmem⟩ := hlast
  cases r with
  | some e => exact .inr ⟨e, hmem e rfl, by rw [plistEntryFind, hr]⟩
  | none =>
    obtain ⟨r, hr', hmem'⟩ := hsearch l.entries fun _ he => he
    cases r with
    | none => exact .inl (by simp only [plistEntryFind, hr, hr'])
    | some e => exact .inr ⟨e, hmem' e rfl, by simp only [plistEntryFind, hr, hr']⟩

end CloudHands.Table
