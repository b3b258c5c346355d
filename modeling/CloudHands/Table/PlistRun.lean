import CloudHands.Lib.Run
import CloudHands.Table.Plist

/-!
# Runs of a list of entries

All operations of `ch_plist.c` on one list: with the counter `entry_num`, with the calls of the
timeout and the clean callback, which are recorded, and with a pool that hands out its free
objects in their order. A run is compared with a plain list of the live entries.
-/

namespace CloudHands.Table

open CloudHands.Lib
open CloudHands.Word (add sub)

variable {α κ : Type*}

/-- A list with its counter and the calls of its callbacks. The objects that were ever handed
out and the time of the last operation are for the statements only. -/
structure PlistState (α : Type*) where
  list : Plist α
  entryNum : ℕ
  timedOut : List (ℕ × ℕ)
  cleaned : List ℕ
  created : List ℕ
  clock : ℕ

def PlistState.entryFree (s : PlistState α) (entry isTimeout : ℕ) : PlistState α :=
  { s with
    list := s.list.free entry
    timedOut := if isTimeout = 0 then s.timedOut else s.timedOut ++ [(entry, isTimeout)]
    cleaned := s.cleaned ++ [entry] }

/-- The loops over the entries there are when they start: an entry is freed when it is idle or
`needFree` asks for it. The first result is the count `c`. -/
def freeLoop (curTime : ℕ) (needFree : α → Bool) :
    List ℕ → ℕ → PlistState α → ℕ × PlistState α
  | [], c, s => (c, s)
  | entry :: rest, c, s =>
    let tv := s.list.entryIsTimeout entry curTime
    if tv ≠ 0 ∨ needFree (s.list.mem entry).app then
      freeLoop curTime needFree rest (c + 1) (s.entryFree entry tv)
    else freeLoop curTime needFree rest c s

/-- `_entries_timeout_free`. -/
def PlistState.freeIdle (s : PlistState α) (curTime : ℕ) : PlistState α :=
  (freeLoop curTime (fun _ => false) s.list.entries 0 s).2

/-- `ch_plist_entries_timeout_free`. -/
def PlistState.entriesTimeoutFree (s : PlistState α) (needFree : α → Bool) (curTime : ℕ) :
    ℕ × PlistState α :=
  if s.list.entries = [] then (0, s)
  else if sub 64 curTime s.list.lastCleanTime < s.list.entryTimeout then (0, s)
  else
    freeLoop curTime needFree s.list.entries 0
      { s with list := { s.list with lastCleanTime := curTime } }

/-- The end of `ch_plist_entry_create`. -/
def PlistState.link (s : PlistState α) (entry now : ℕ) : PlistState α :=
  { s with
    list := s.list.link entry now
    entryNum := add 64 s.entryNum 1
    created := s.created ++ [entry] }

/-- `ch_plist_entry_create`. -/
def PlistState.entryCreate (s : PlistState α) (now : ℕ) : Option ℕ × PlistState α :=
  match s.list.ep.head? with
  | some entry => (some entry, s.link entry now)
  | none =>
    let s := s.freeIdle now
    match s.list.ep.head? with
    | some entry => (some entry, s.link entry now)
    | none => (none, s)

def PlistState.fill (r : Option ℕ × PlistState α) (app : α) : PlistState α :=
  match r.1 with
  | none => r.2
  | some entry => { r.2 with list := r.2.list.setApp entry app }

/-- `ch_plist_entry_find`. -/
def PlistState.entryFind (equal : α → κ → Bool) (s : PlistState α) (key : κ) (now : ℕ) :
    Option ℕ × PlistState α :=
  match plistEntryFind (fun app => some (equal app key)) s.list now with
  | none => (none, s)
  | some (entry, list) => (entry, { s with list := list })

inductive PlistOp (α κ : Type*)
  | create (app : α)
  | find (key : κ)
  | free (entry : ℕ)
  | timeoutFree (needFree : α → Bool)

/-- The clock does not go back and is a 64-bit number; only live entries are freed. -/
def PlistState.Allows (s : PlistState α) (op : PlistOp α κ × ℕ) : Prop :=
  (s.clock ≤ op.2 ∧ op.2 < 2 ^ 64) ∧
    match op.1 with
    | .free entry => entry ∈ s.list.entries
    | _ => True

def PlistState.step (equal : α → κ → Bool) (s : PlistState α) (op : PlistOp α κ × ℕ) :
    PlistState α :=
  match op.1 with
  | .create app => { PlistState.fill (s.entryCreate op.2) app with clock := op.2 }
  | .find key => { (s.entryFind equal key op.2).2 with clock := op.2 }
  | .free entry => { s.entryFree entry 0 with clock := op.2 }
  | .timeoutFree needFree => { (s.entriesTimeoutFree needFree op.2).2 with clock := op.2 }

/-- `ch_plist_create`. -/
def PlistState.init (ep : List ℕ) (mem : ℕ → PlistEntry α) (entryTimeout now : ℕ) :
    PlistState α :=
  ⟨plistCreate ep mem entryTimeout now, 0, [], [], [], now⟩

def PlistRun (equal : α → κ → Bool) (init : PlistState α) :
    List (PlistState α × PlistOp α κ × ℕ) → PlistState α → Prop :=
  Run (fun s op s' => s.Allows op ∧ s' = s.step equal op) init

abbrev PlistItem (α : Type*) := ℕ × PlistEntry α

def PlistState.live (s : PlistState α) : List (PlistItem α) :=
  s.list.entries.map fun entry => (entry, s.list.mem entry)

def PlistItem.idle (entryTimeout now : ℕ) (item : PlistItem α) : Bool :=
  decide (item.2.lastTime + entryTimeout < now)

def touchItems (entry now : ℕ) (items : List (PlistItem α)) : List (PlistItem α) :=
  (items.filter fun item => item.1 = entry).map (fun item => (entry, ⟨now, item.2.app⟩)) ++
    items.filter fun item => item.1 ≠ entry

def FindsLive (equal : α → κ → Bool) (s : PlistState α) (now : ℕ) : Prop :=
  ∀ key, match (s.entryFind equal key now).1 with
    | none => (∀ item ∈ s.live, equal item.2.app key = false) ∧
        (s.entryFind equal key now).2.live = s.live
    | some entry => (∃ item ∈ s.live, item.1 = entry ∧ equal item.2.app key = true) ∧
        (s.entryFind equal key now).2.live = touchItems entry now s.live

def CreatesLive (limit : ℕ) (s : PlistState α) (now : ℕ) : Prop :=
  ∀ app,
    let kept := if s.live.length = limit then
        s.live.filter fun item => !item.idle s.list.entryTimeout now
      else s.live
    match (s.entryCreate now).1 with
    | none => (s.live.length = limit ∧ kept.length = limit) ∧
        (PlistState.fill (s.entryCreate now) app).live = s.live
    | some entry => (kept.length < limit ∧ ∀ item ∈ kept, item.1 ≠ entry) ∧
        (PlistState.fill (s.entryCreate now) app).live = (entry, ⟨now, app⟩) :: kept

def SweepsIdle (s : PlistState α) (now : ℕ) : Prop :=
  ∀ needFree : α → Bool,
    let gone := fun item : PlistItem α =>
      item.idle s.list.entryTimeout now || needFree item.2.app
    if s.live = [] ∨ sub 64 now s.list.lastCleanTime < s.list.entryTimeout then
      s.entriesTimeoutFree needFree now = (0, s)
    else
      (s.entriesTimeoutFree needFree now).1 = (s.live.filter gone).length ∧
        (s.entriesTimeoutFree needFree now).2.live = s.live.filter (fun item => !gone item) ∧
        ((s.entriesTimeoutFree needFree now).2.cleaned =
            s.cleaned ++ (s.live.filter gone).map Prod.fst ∧
          (s.entriesTimeoutFree needFree now).2.timedOut =
            s.timedOut ++ (s.live.filter (PlistItem.idle s.list.entryTimeout now)).map
              fun item => (item.1, now - item.2.lastTime))

/-- The list does what a plain list of at most `limit` entries does, and every entry that was
created is live or was cleaned once. -/
structure RefinesList (equal : α → κ → Bool) (limit : ℕ) (s : PlistState α) : Prop where
  find : ∀ now, s.clock ≤ now → now < 2 ^ 64 → FindsLive equal s now
  create : ∀ now, s.clock ≤ now → now < 2 ^ 64 → CreatesLive limit s now
  sweep : ∀ now, s.clock ≤ now → now < 2 ^ 64 → SweepsIdle s now
  free : ∀ entry ∈ s.list.entries,
    (s.entryFree entry 0).live = s.live.filter (fun item => item.1 ≠ entry) ∧
      (s.entryFree entry 0).cleaned = s.cleaned ++ [entry]
  cleanedOnce : s.created.Perm (s.cleaned ++ s.live.map Prod.fst)

/-- What the state is after the entries `gone` have been freed, each with its idle time. -/
structure Freed (s s' : PlistState α) (gone : List ℕ) (tv : ℕ → ℕ) : Prop where
  ok : s'.list.Ok
  mem : s'.list.mem = s.list.mem
  entryTimeout : s'.list.entryTimeout = s.list.entryTimeout
  entries : s'.list.entries = s.list.entries.filter fun e => e ∉ gone
  ep : s'.list.ep = s.list.ep ++ gone
  entryNum : s'.entryNum = s.entryNum
  timedOut : s'.timedOut =
    s.timedOut ++ (gone.filter fun e => tv e ≠ 0).map fun e => (e, tv e)
  cleaned : s'.cleaned = s.cleaned ++ gone
  created : s'.created = s.created
  clock : s'.clock = s.clock

theorem Freed.refl {s : PlistState α} (h : s.list.Ok) (tv : ℕ → ℕ) : Freed s s [] tv := by
  constructor <;> simp [h]

theorem Freed.snoc {s s' : PlistState α} {gone : List ℕ} {tv : ℕ → ℕ} (h : Freed s s' gone tv)
    {entry : ℕ} (he : entry ∈ s'.list.entries) :
    Freed s (s'.entryFree entry (tv entry)) (gone ++ [entry]) tv where
  ok := h.ok.free he
  mem := h.mem
  entryTimeout := h.entryTimeout
  entries := by
    have herase : (s'.entryFree entry (tv entry)).list.entries =
        s'.list.entries.filter fun e => e ≠ entry := by
      simp only [PlistState.entryFree, Plist.free, h.ok.nodup.erase_eq_filter, ne_eq,
        decide_not, bne, beq_eq_decide]
    rw [herase, h.entries, List.filter_filter]
    refine List.filter_congr fun e _ => ?_
    simp [and_comm]
  ep := by
    rw [← List.append_assoc, ← h.ep]
    rfl
  entryNum := h.entryNum
  timedOut := by
    simp only [PlistState.entryFree]
    split
    · rename_i hzero
      rw [h.timedOut, List.filter_append, List.filter_cons_of_neg (by simpa using hzero)]
      simp
    · rename_i hpos
      rw [h.timedOut, List.filter_append, List.filter_cons_of_pos (by simpa using hpos)]
      simp
  cleaned := by
    rw [← List.append_assoc, ← h.cleaned]
    rfl
  created := h.created
  clock := h.clock

theorem Freed.isTimeout {s s' : PlistState α} {gone : List ℕ} {tv : ℕ → ℕ}
    (h : Freed s s' gone tv) (entry curTime : ℕ) :
    s'.list.entryIsTimeout entry curTime = s.list.entryIsTimeout entry curTime := by
  rw [Plist.entryIsTimeout, Plist.entryIsTimeout, h.mem, h.entryTimeout]

/-- What a loop frees of the entries of a list `s`. -/
def PlistState.selects (s : PlistState α) (curTime : ℕ) (needFree : α → Bool) (entry : ℕ) : Bool :=
  decide (s.list.entryIsTimeout entry curTime ≠ 0) || needFree (s.list.mem entry).app

theorem freeLoop_spec {s₀ : PlistState α} (curTime : ℕ) (needFree : α → Bool) (es : List ℕ)
    {c : ℕ} {s : PlistState α} {gone : List ℕ}
    (h : Freed s₀ s gone fun e => s₀.list.entryIsTimeout e curTime) (hnodup : es.Nodup)
    (hes : ∀ e ∈ es, e ∈ s.list.entries) :
    (freeLoop curTime needFree es c s).1 = c + (es.filter (s₀.selects curTime needFree)).length ∧
      Freed s₀ (freeLoop curTime needFree es c s).2
        (gone ++ es.filter (s₀.selects curTime needFree))
        fun e => s₀.list.entryIsTimeout e curTime := by
  induction es generalizing c s gone with
  | nil => exact ⟨rfl, by simpa [freeLoop] using h⟩
  | cons e es ih =>
    obtain ⟨hnot, hnodup⟩ := List.nodup_cons.1 hnodup
    obtain ⟨he, hes⟩ := List.forall_mem_cons.1 hes
    have hselects : (s.list.entryIsTimeout e curTime ≠ 0 ∨ needFree (s.list.mem e).app = true) ↔
        s₀.selects curTime needFree e = true := by
      rw [h.isTimeout, h.mem, PlistState.selects, Bool.or_eq_true, decide_eq_true_iff]
    simp only [freeLoop, hselects]
    cases hsel : s₀.selects curTime needFree e with
    | true =>
      have hfreed := h.snoc he
      have hrest : ∀ e' ∈ es,
          e' ∈ (s.entryFree e (s.list.entryIsTimeout e curTime)).list.entries := by
        intro e' hmem
        refine (List.mem_erase_of_ne ?_).2 (hes e' hmem)
        rintro rfl
        exact hnot hmem
      rw [h.isTimeout] at hrest
      obtain ⟨hcount, hall⟩ := ih (c := c + 1) hfreed hnodup hrest
      rw [if_pos rfl, h.isTimeout, List.filter_cons_of_pos hsel]
      constructor
      · rw [hcount, List.length_cons]
        omega
      · rw [List.append_cons]
        exact hall
    | false =>
      rw [if_neg Bool.false_ne_true, List.filter_cons_of_neg (by simp [hsel])]
      exact ih h hnodup hes

theorem freeLoop_all {s : PlistState α} (h : s.list.Ok) (curTime : ℕ) (needFree : α → Bool) :
    (freeLoop curTime needFree s.list.entries 0 s).1 =
        (s.list.entries.filter (s.selects curTime needFree)).length ∧
      Freed s (freeLoop curTime needFree s.list.entries 0 s).2
        (s.list.entries.filter (s.selects curTime needFree))
        fun e => s.list.entryIsTimeout e curTime := by
  obtain ⟨hcount, hfreed⟩ := freeLoop_spec (c := 0) curTime needFree s.list.entries
    (Freed.refl h fun e => s.list.entryIsTimeout e curTime) h.nodup fun _ he => he
  exact ⟨by rw [hcount, Nat.zero_add], hfreed⟩

theorem plistFreeIdle_eq (curTime : ℕ) (es : List ℕ) (c : ℕ) (s : PlistState α) :
    plistFreeIdle (fun _ t => some t) curTime es s.list () =
      some ((freeLoop curTime (fun _ => false) es c s).2.list, ()) := by
  induction es generalizing c s with
  | nil => rfl
  | cons e es ih =>
    simp only [plistFreeIdle, freeLoop, Bool.false_eq_true, or_false]
    split
    · rename_i htv
      rw [if_neg (not_not.2 htv)]
      exact ih c s
    · rename_i htv
      rw [plistEntryFree_of_timeout htv rfl]
      exact ih (c + 1) (s.entryFree e _)

structure PlistInv (objects : List ℕ) (s : PlistState α) : Prop where
  ok : s.list.Ok
  stamps : ∀ e ∈ s.list.entries, (s.list.mem e).lastTime ≤ s.clock
  objects : (s.list.ep ++ s.list.entries).Perm objects
  created : s.created.Perm (s.cleaned ++ s.list.entries)
  counter : s.entryNum = s.created.length % 2 ^ 64

theorem PlistInv.init {ep : List ℕ} (hep : ep.Nodup) (mem : ℕ → PlistEntry α)
    (entryTimeout now : ℕ) : PlistInv ep (PlistState.init ep mem entryTimeout now) where
  ok := plistCreate_ok hep mem entryTimeout now
  stamps := by simp [PlistState.init, plistCreate]
  objects := by simp [PlistState.init, plistCreate]
  created := by simp [PlistState.init, plistCreate]
  counter := rfl

theorem PlistInv.later {objects : List ℕ} {s : PlistState α} (h : PlistInv objects s) {now : ℕ}
    (hnow : s.clock ≤ now) : PlistInv objects { s with clock := now } :=
  ⟨h.ok, fun e he => (h.stamps e he).trans hnow, h.objects, h.created, h.counter⟩

theorem gone_perm {entries gone : List ℕ} (hnodup : entries.Nodup) (hgone : gone.Nodup)
    (hsub : ∀ e ∈ gone, e ∈ entries) :
    (gone ++ entries.filter fun e => e ∉ gone).Perm entries := by
  refine (List.perm_ext_iff_of_nodup ?_ hnodup).2 fun e => ?_
  · refine List.nodup_append.2 ⟨hgone, hnodup.filter _, ?_⟩
    rintro e he e' he' rfl
    exact absurd he (by simpa using (List.mem_filter.1 he').2)
  · rw [List.mem_append, List.mem_filter, decide_eq_true_iff]
    constructor
    · rintro (he | ⟨he, -⟩)
      · exact hsub e he
      · exact he
    · intro he
      by_cases hmem : e ∈ gone
      · exact Or.inl hmem
      · exact Or.inr ⟨he, hmem⟩

theorem PlistInv.freed {objects : List ℕ} {s s' : PlistState α} {gone : List ℕ} {tv : ℕ → ℕ}
    (h : PlistInv objects s) (hfreed : Freed s s' gone tv) (hgone : gone.Nodup)
    (hsub : ∀ e ∈ gone, e ∈ s.list.entries) : PlistInv objects s' where
  ok := hfreed.ok
  stamps := by
    intro e he
    rw [hfreed.entries] at he
    rw [hfreed.mem, hfreed.clock]
    exact h.stamps e (List.mem_filter.1 he).1
  objects := by
    rw [hfreed.ep, hfreed.entries, List.append_assoc]
    exact ((gone_perm h.ok.nodup hgone hsub).append_left _).trans h.objects
  created := by
    rw [hfreed.created, hfreed.cleaned, hfreed.entries, List.append_assoc]
    exact h.created.trans ((gone_perm h.ok.nodup hgone hsub).append_left _).symm
  counter := by rw [hfreed.entryNum, hfreed.created, h.counter]

theorem PlistInv.entryFree {objects : List ℕ} {s : PlistState α} (h : PlistInv objects s)
    {entry : ℕ} (he : entry ∈ s.list.entries) : PlistInv objects (s.entryFree entry 0) := by
  have hfreed : Freed s (s.entryFree entry 0) [entry] fun _ => 0 :=
    (Freed.refl h.ok fun _ => 0).snoc he
  exact h.freed hfreed (List.nodup_singleton entry) (List.forall_mem_singleton.2 he)

theorem PlistInv.freeLoop {objects : List ℕ} {s : PlistState α} (h : PlistInv objects s)
    (curTime : ℕ) (needFree : α → Bool) :
    PlistInv objects (freeLoop curTime needFree s.list.entries 0 s).2 :=
  h.freed (freeLoop_all h.ok curTime needFree).2 (h.ok.nodup.filter _)
    fun _ he => (List.mem_filter.1 he).1

theorem PlistInv.link {objects : List ℕ} {s : PlistState α} (h : PlistInv objects s)
    {entry now : ℕ} (hentry : s.list.ep.head? = some entry) (hnow : s.clock ≤ now) :
    PlistInv objects { s.link entry now with clock := now } := by
  obtain ⟨rest, hrest⟩ : ∃ rest, s.list.ep = entry :: rest := List.head?_eq_some_iff.1 hentry
  have hmem : entry ∈ s.list.ep := by
    rw [hrest]
    exact List.mem_cons_self
  have hfresh := h.ok.pool entry hmem
  refine ⟨h.ok.link hmem now, ?_, ?_, ?_, ?_⟩
  · intro e he
    rcases List.mem_cons.1 he with heq | hold
    · simp [PlistState.link, Plist.link, heq]
    · have hne : e ≠ entry := fun heq => hfresh (heq ▸ hold)
      simp only [PlistState.link, Plist.link, Function.update_of_ne hne]
      exact (h.stamps e hold).trans hnow
  · have hpool : (s.link entry now).list.ep = rest := by
      simp only [PlistState.link, Plist.link, hrest, List.erase_cons_head]
    have hlisted : (s.link entry now).list.entries = entry :: s.list.entries := rfl
    have hobjects := h.objects
    rw [hrest] at hobjects
    rw [hpool, hlisted]
    exact List.perm_middle.trans hobjects
  · have hlisted : (s.link entry now).list.entries = entry :: s.list.entries := rfl
    have hmiddle : (s.cleaned ++ entry :: s.list.entries).Perm
        (s.cleaned ++ s.list.entries ++ [entry]) := by
      rw [List.append_assoc]
      exact (List.perm_append_singleton entry s.list.entries).symm.append_left _
    rw [hlisted]
    exact (h.created.append_right [entry]).trans hmiddle.symm
  · simp only [PlistState.link, add, h.counter, List.length_append, List.length_singleton,
      Nat.mod_add_mod]

theorem PlistInv.setApp {objects : List ℕ} {s : PlistState α} (h : PlistInv objects s)
    (entry : ℕ) (app : α) : PlistInv objects { s with list := s.list.setApp entry app } := by
  refine ⟨h.ok.setApp entry app, fun e he => ?_, h.objects, h.created, h.counter⟩
  have hsame : ((s.list.setApp entry app).mem e).lastTime = (s.list.mem e).lastTime := by
    by_cases hne : e = entry
    · simp [Plist.setApp, hne]
    · simp [Plist.setApp, hne]
  rw [hsame]
  exact h.stamps e he

theorem PlistInv.touch {objects : List ℕ} {s : PlistState α} (h : PlistInv objects s)
    {entry now : ℕ} (he : entry ∈ s.list.entries) (hnow : s.clock ≤ now) :
    PlistInv objects { s with list := s.list.touch entry now, clock := now } := by
  have hperm := Plist.touch_perm he now
  refine ⟨h.ok.touch he now, ?_, (hperm.append_left _).trans h.objects,
    h.created.trans (hperm.symm.append_left _), h.counter⟩
  intro e hmem
  by_cases hne : e = entry
  · simp [Plist.touch, hne]
  · simp only [Plist.touch, Function.update_of_ne hne]
    exact (h.stamps e (hperm.mem_iff.1 hmem)).trans hnow

theorem findFromEntries_total (l : Plist α) (equal : α → Bool) (es : List ℕ) :
    l.findFromEntries (fun app => some (equal app)) es =
      some (es.find? fun e => equal (l.mem e).app) := by
  induction es with
  | nil => rfl
  | cons e es ih =>
    rw [Plist.findFromEntries, List.find?_cons]
    cases equal (l.mem e).app with
    | true => rfl
    | false => exact ih

theorem findFromLast_total (l : Plist α) (equal : α → Bool) :
    l.findFromLast (fun app => some (equal app)) =
      some (l.lastEntry.filter fun e => equal (l.mem e).app) := by
  rw [Plist.findFromLast]
  cases l.lastEntry <;> rfl

theorem entryFind_cases (equal : α → κ → Bool) {s : PlistState α} (h : s.list.Ok) (key : κ)
    (now : ℕ) :
    (∃ e ∈ s.list.entries, equal (s.list.mem e).app key = true ∧
        s.entryFind equal key now = (some e, { s with list := s.list.touch e now })) ∨
      (∀ e ∈ s.list.entries, equal (s.list.mem e).app key = false) ∧
        s.entryFind equal key now = (none, s) := by
  have hlast := findFromLast_total s.list fun app => equal app key
  have hsearch := findFromEntries_total s.list (fun app => equal app key) s.list.entries
  cases hl : s.list.lastEntry.filter fun e => equal (s.list.mem e).app key with
  | some e =>
    obtain ⟨hmem, heq⟩ := Option.filter_eq_some_iff.1 hl
    refine Or.inl ⟨e, h.last e hmem, heq, ?_⟩
    rw [hl] at hlast
    rw [PlistState.entryFind, plistEntryFind, hlast]
  | none =>
    rw [hl] at hlast
    cases hs : s.list.entries.find? fun e => equal (s.list.mem e).app key with
    | some e =>
      rw [hs] at hsearch
      refine Or.inl ⟨e, List.mem_of_find?_eq_some hs, ?_, ?_⟩
      · simpa using List.find?_some hs
      · simp only [PlistState.entryFind, plistEntryFind, hlast, hsearch]
    | none =>
      rw [hs] at hsearch
      refine Or.inr ⟨fun e he => by simpa using List.find?_eq_none.1 hs e he, ?_⟩
      simp only [PlistState.entryFind, plistEntryFind, hlast, hsearch]

theorem live_touch {s : PlistState α} (h : s.list.Ok) {entry : ℕ} (he : entry ∈ s.list.entries)
    (now : ℕ) : ({ s with list := s.list.touch entry now } : PlistState α).live =
      touchItems entry now s.live := by
  have hfront : s.list.entries.filter (fun e => decide (e = entry)) = [entry] := by
    rw [List.filter_eq, List.count_eq_one_of_mem h.nodup he, List.replicate_one]
  have hrest : s.list.entries.erase entry = s.list.entries.filter fun e => decide (e ≠ entry) := by
    simp only [h.nodup.erase_eq_filter, ne_eq, decide_not, bne, beq_eq_decide]
  simp only [PlistState.live, touchItems, Plist.touch, List.filter_map, Function.comp_def, hfront,
    hrest, List.map_cons, List.map_nil, List.singleton_append, Function.update_self]
  refine congrArg _ (List.map_congr_left fun e hmem => ?_)
  have hne : e ≠ entry := by simpa using (List.mem_filter.1 hmem).2
  rw [Function.update_of_ne hne]

theorem live_freed {s s' : PlistState α} {gone : List ℕ} {tv : ℕ → ℕ} (h : Freed s s' gone tv) :
    s'.live = s.live.filter fun item => item.1 ∉ gone := by
  rw [PlistState.live, PlistState.live, h.entries, h.mem, List.filter_map]
  rfl

theorem live_fill_link {s : PlistState α} {entry : ℕ} (hfresh : entry ∉ s.list.entries) (now : ℕ)
    (app : α) : (PlistState.fill (some entry, s.link entry now) app).live =
      (entry, ⟨now, app⟩) :: s.live := by
  simp only [PlistState.fill, PlistState.live, PlistState.link, Plist.setApp, Plist.link,
    List.map_cons, Function.update_self]
  refine congrArg _ (List.map_congr_left fun e he => ?_)
  have hne : e ≠ entry := fun heq => hfresh (heq ▸ he)
  rw [Function.update_of_ne hne, Function.update_of_ne hne]

section Reachable

variable {objects : List ℕ} {s : PlistState α} {now : ℕ}

theorem PlistInv.isTimeout (h : PlistInv objects s) (hnow : s.clock ≤ now) (hword : now < 2 ^ 64)
    {e : ℕ} (he : e ∈ s.list.entries) :
    s.list.entryIsTimeout e now =
      if PlistItem.idle s.list.entryTimeout now (e, s.list.mem e) then
        now - (s.list.mem e).lastTime else 0 := by
  have hle := (h.stamps e he).trans hnow
  rw [Plist.entryIsTimeout, Word.sub_of_le hword hle]
  simp only [PlistItem.idle, decide_eq_true_iff]
  exact if_congr (by omega) rfl rfl

theorem PlistInv.isTimeout_ne_zero (h : PlistInv objects s) (hnow : s.clock ≤ now)
    (hword : now < 2 ^ 64) {e : ℕ} (he : e ∈ s.list.entries) :
    s.list.entryIsTimeout e now ≠ 0 ↔
      PlistItem.idle s.list.entryTimeout now (e, s.list.mem e) = true := by
  rw [h.isTimeout hnow hword he]
  split
  · rename_i hidle
    have hlt := of_decide_eq_true hidle
    simp only at hlt
    exact iff_of_true (by omega) hidle
  · rename_i hidle
    exact iff_of_false (not_not.2 rfl) hidle

theorem PlistInv.selects (h : PlistInv objects s) (hnow : s.clock ≤ now) (hword : now < 2 ^ 64)
    (needFree : α → Bool) {e : ℕ} (he : e ∈ s.list.entries) :
    s.selects now needFree e =
      (PlistItem.idle s.list.entryTimeout now (e, s.list.mem e) ||
        needFree (s.list.mem e).app) := by
  rw [PlistState.selects, Bool.eq_iff_iff, Bool.or_eq_true, Bool.or_eq_true, decide_eq_true_iff,
    h.isTimeout_ne_zero hnow hword he]

theorem PlistInv.live_selected (h : PlistInv objects s) (hnow : s.clock ≤ now)
    (hword : now < 2 ^ 64) (needFree : α → Bool) :
    (s.live.filter fun item =>
        PlistItem.idle s.list.entryTimeout now item || needFree item.2.app) =
      (s.list.entries.filter (s.selects now needFree)).map fun e => (e, s.list.mem e) := by
  rw [PlistState.live, List.filter_map]
  refine congrArg _ (List.filter_congr fun e he => ?_)
  exact (h.selects hnow hword needFree he).symm

theorem PlistInv.live_kept (h : PlistInv objects s) (hnow : s.clock ≤ now) (hword : now < 2 ^ 64)
    (needFree : α → Bool) :
    (s.live.filter fun item =>
        !(PlistItem.idle s.list.entryTimeout now item || needFree item.2.app)) =
      s.live.filter fun item => item.1 ∉ s.list.entries.filter (s.selects now needFree) := by
  rw [PlistState.live, List.filter_map, List.filter_map]
  refine congrArg _ (List.filter_congr fun e he => ?_)
  have hsel := h.selects hnow hword needFree he
  simp only [Function.comp_apply, ← hsel, List.mem_filter, he, true_and]
  cases s.selects now needFree e <;> rfl

theorem PlistInv.live_timedOut (h : PlistInv objects s) (hnow : s.clock ≤ now)
    (hword : now < 2 ^ 64) (needFree : α → Bool) :
    ((s.live.filter (PlistItem.idle s.list.entryTimeout now)).map
        fun item => (item.1, now - item.2.lastTime)) =
      ((s.list.entries.filter (s.selects now needFree)).filter
        fun e => s.list.entryIsTimeout e now ≠ 0).map
          fun e => (e, s.list.entryIsTimeout e now) := by
  rw [PlistState.live, List.filter_map, List.map_map, List.filter_filter]
  have hidle : s.list.entries.filter (PlistItem.idle s.list.entryTimeout now ∘
        fun e => (e, s.list.mem e)) =
      s.list.entries.filter fun e =>
        decide (s.list.entryIsTimeout e now ≠ 0) && s.selects now needFree e := by
    refine List.filter_congr fun e he => ?_
    have hne := h.isTimeout_ne_zero hnow hword he
    rw [Bool.eq_iff_iff, Function.comp_apply, ← hne, Bool.and_eq_true, decide_eq_true_iff,
      PlistState.selects, Bool.or_eq_true, decide_eq_true_iff]
    exact ⟨fun htv => ⟨htv, Or.inl htv⟩, fun hboth => hboth.1⟩
  rw [hidle]
  refine List.map_congr_left fun e he => ?_
  obtain ⟨hmem, hsel⟩ := List.mem_filter.1 he
  have htv := of_decide_eq_true (Bool.and_eq_true _ _ ▸ hsel).1
  have hidle := (h.isTimeout_ne_zero hnow hword hmem).1 htv
  rw [Function.comp_apply, h.isTimeout hnow hword hmem, if_pos hidle]

theorem PlistInv.findsLive (h : PlistInv objects s) (equal : α → κ → Bool) (now : ℕ) :
    FindsLive equal s now := by
  intro key
  rcases entryFind_cases equal h.ok key now with ⟨e, he, heq, hfind⟩ | ⟨hnone, hfind⟩
  · rw [hfind]
    exact ⟨⟨(e, s.list.mem e), List.mem_map_of_mem he, rfl, heq⟩, live_touch h.ok he now⟩
  · rw [hfind]
    refine ⟨fun item hitem => ?_, rfl⟩
    obtain ⟨e, he, rfl⟩ := List.mem_map.1 hitem
    exact hnone e he

theorem PlistInv.sweepsIdle (h : PlistInv objects s) (hnow : s.clock ≤ now)
    (hword : now < 2 ^ 64) : SweepsIdle s now := by
  intro needFree
  have hnil : s.live = [] ↔ s.list.entries = [] := List.map_eq_nil_iff
  simp only [hnil]
  split
  · rename_i hearly
    rw [PlistState.entriesTimeoutFree]
    rcases hearly with hempty | hearly
    · rw [if_pos hempty]
    · split
      · rfl
      · rfl
  · rename_i hlate
    obtain ⟨hempty, hearly⟩ := not_or.1 hlate
    have hcleaned : PlistInv objects
        { s with list := { s.list with lastCleanTime := now } } := by
      exact ⟨⟨h.ok.nodup, h.ok.pool_nodup, h.ok.pool, h.ok.last⟩, h.stamps, h.objects, h.created,
        h.counter⟩
    obtain ⟨hcount, hfreed⟩ := freeLoop_all hcleaned.ok now needFree
    have hselected := hcleaned.live_selected hnow hword needFree
    have hkept := hcleaned.live_kept hnow hword needFree
    rw [PlistState.entriesTimeoutFree, if_neg hempty, if_neg hearly]
    refine ⟨?_, ?_, ?_, ?_⟩
    · rw [hcount]
      exact (List.length_map _).symm.trans (congrArg List.length hselected.symm)
    · exact (live_freed hfreed).trans hkept.symm
    · have hids := congrArg (List.map Prod.fst) hselected
      rw [List.map_map, Function.comp_def, List.map_id'] at hids
      rw [hfreed.cleaned]
      exact congrArg (s.cleaned ++ ·) hids.symm
    · rw [hfreed.timedOut]
      exact congrArg (s.timedOut ++ ·) (hcleaned.live_timedOut hnow hword needFree).symm

theorem fresh_of_head {l : Plist α} (h : l.Ok) {entry : ℕ} (hentry : l.ep.head? = some entry) :
    entry ∉ l.entries := h.pool entry (List.mem_of_mem_head? hentry)

theorem PlistInv.createsLive (h : PlistInv objects s) (hnow : s.clock ≤ now)
    (hword : now < 2 ^ 64) : CreatesLive objects.length s now := by
  intro app
  have hlength : s.list.ep.length + s.live.length = objects.length := by
    rw [← h.objects.length_eq, List.length_append, PlistState.live, List.length_map]
  rw [PlistState.entryCreate]
  cases hhead : s.list.ep.head? with
  | some entry =>
    have hpos : 0 < s.list.ep.length :=
      List.length_pos_of_mem (List.mem_of_mem_head? hhead)
    have hlt : s.live.length < objects.length := by omega
    have hfresh := fresh_of_head h.ok hhead
    simp only [if_neg hlt.ne]
    refine ⟨⟨hlt, fun item hitem heq => ?_⟩, live_fill_link hfresh now app⟩
    obtain ⟨e, he, rfl⟩ := List.mem_map.1 hitem
    exact hfresh (heq ▸ he)
  | none =>
    have hep : s.list.ep = [] := List.head?_eq_none_iff.1 hhead
    have hfull : s.live.length = objects.length := by
      rw [← hlength, hep, List.length_nil, Nat.zero_add]
    have hfreed := (freeLoop_all h.ok now fun _ => false).2
    have hkept : (s.freeIdle now).live =
        s.live.filter fun item => !item.idle s.list.entryTimeout now := by
      have hlive := h.live_kept hnow hword fun _ => false
      simp only [Bool.or_false] at hlive
      exact (live_freed hfreed).trans hlive.symm
    have hinv : PlistInv objects (s.freeIdle now) := h.freeLoop now fun _ => false
    have hsplit : (s.freeIdle now).list.ep.length + (s.freeIdle now).live.length =
        objects.length := by
      rw [← hinv.objects.length_eq, List.length_append, PlistState.live, List.length_map]
    simp only [if_pos hfull, ← hkept]
    cases hagain : (s.freeIdle now).list.ep.head? with
    | some entry =>
      have hpos : 0 < (s.freeIdle now).list.ep.length :=
        List.length_pos_of_mem (List.mem_of_mem_head? hagain)
      have hfresh := fresh_of_head hinv.ok hagain
      refine ⟨⟨by omega, fun item hitem heq => ?_⟩, live_fill_link hfresh now app⟩
      obtain ⟨e, he, rfl⟩ := List.mem_map.1 hitem
      exact hfresh (heq ▸ he)
    | none =>
      have hnone : (s.freeIdle now).list.ep = [] := List.head?_eq_none_iff.1 hagain
      have hall : (s.freeIdle now).live.length = objects.length := by
        rw [← hsplit, hnone, List.length_nil, Nat.zero_add]
      refine ⟨⟨hfull, hall⟩, ?_⟩
      -- nothing was idle, so nothing was freed
      have hsame : (s.live.filter fun item => !item.idle s.list.entryTimeout now) = s.live := by
        refine List.filter_sublist.eq_of_length ?_
        rw [← hkept, hall, hfull]
      exact hkept.trans hsame

theorem PlistInv.refines (h : PlistInv objects s) (equal : α → κ → Bool) :
    RefinesList equal objects.length s where
  find now _ _ := h.findsLive equal now
  create _ hnow hword := h.createsLive hnow hword
  sweep _ hnow hword := h.sweepsIdle hnow hword
  free entry he := by
    have hfreed : Freed s (s.entryFree entry 0) [entry] fun _ => 0 :=
      (Freed.refl h.ok fun _ => 0).snoc he
    refine ⟨?_, hfreed.cleaned⟩
    rw [live_freed hfreed]
    simp only [List.mem_singleton]
  cleanedOnce := by
    have hids : s.live.map Prod.fst = s.list.entries := by
      rw [PlistState.live, List.map_map, Function.comp_def, List.map_id']
    rw [hids]
    exact h.created

theorem PlistInv.step (h : PlistInv objects s) (equal : α → κ → Bool) {op : PlistOp α κ × ℕ}
    (hallows : s.Allows op) : PlistInv objects (s.step equal op) := by
  obtain ⟨op, now⟩ := op
  obtain ⟨⟨hnow, -⟩, hop⟩ := hallows
  cases op with
  | create app =>
    have hlinked : ∀ {s' : PlistState α} {entry : ℕ}, PlistInv objects s' → s'.clock = s.clock →
        s'.list.ep.head? = some entry →
        PlistInv objects
          { PlistState.fill (some entry, s'.link entry now) app with clock := now } := by
      intro s' entry hs' hclock hhead
      exact (hs'.link hhead (hclock.trans_le hnow)).setApp entry app
    have hfreed := (freeLoop_all h.ok now fun _ => false).2
    have hinv : PlistInv objects (s.freeIdle now) := h.freeLoop now fun _ => false
    simp only [PlistState.step, PlistState.entryCreate]
    split
    · rename_i entry hhead
      exact hlinked h rfl hhead
    · split
      · rename_i entry hhead
        exact hlinked hinv hfreed.clock hhead
      · exact hinv.later (hfreed.clock.trans_le hnow)
  | find key =>
    simp only [PlistState.step]
    rcases entryFind_cases equal h.ok key now with ⟨e, he, -, hfind⟩ | ⟨-, hfind⟩
    · rw [hfind]
      exact h.touch he hnow
    · rw [hfind]
      exact h.later hnow
  | free entry => exact (h.entryFree hop).later hnow
  | timeoutFree needFree =>
    simp only [PlistState.step, PlistState.entriesTimeoutFree]
    split
    · exact h.later hnow
    · split
      · exact h.later hnow
      · have hcleaned : PlistInv objects
            { s with list := { s.list with lastCleanTime := now } } :=
          ⟨⟨h.ok.nodup, h.ok.pool_nodup, h.ok.pool, h.ok.last⟩, h.stamps, h.objects, h.created,
            h.counter⟩
        have hfreed := (freeLoop_all hcleaned.ok now needFree).2
        exact (hcleaned.freeLoop now needFree).later (hfreed.clock.trans_le hnow)

end Reachable

theorem PlistInv.run {equal : α → κ → Bool} {ep : List ℕ} (hep : ep.Nodup)
    {mem : ℕ → PlistEntry α} {entryTimeout start : ℕ}
    {history : List (PlistState α × PlistOp α κ × ℕ)} {s : PlistState α}
    (hrun : PlistRun equal (PlistState.init ep mem entryTimeout start) history s) :
    PlistInv ep s := by
  induction hrun with
  | nil => exact PlistInv.init hep mem entryTimeout start
  | snoc _ hstep ih =>
    obtain ⟨hallows, rfl⟩ := hstep
    exact ih.step equal hallows

/-- The list is a plain list after every run. Its counter is right while nothing has been freed,
and again when the freed entries have carried it once around. -/
theorem plist_refines_iff (equal : α → κ → Bool) (ep : List ℕ) (mem : ℕ → PlistEntry α)
    (entryTimeout start : ℕ) (history : List (PlistState α × PlistOp α κ × ℕ))
    (s : PlistState α) (hep : ep.Nodup) (hlimit : ep.length < 2 ^ 64)
    (hrun : PlistRun equal (PlistState.init ep mem entryTimeout start) history s) :
    RefinesList equal ep.length s ∧
      (s.entryNum = s.live.length ↔ s.cleaned.length % 2 ^ 64 = 0) := by
  have hinv := PlistInv.run hep hrun
  refine ⟨hinv.refines equal, ?_⟩
  have hcreated : s.created.length = s.cleaned.length + s.live.length := by
    rw [hinv.created.length_eq, List.length_append, PlistState.live, List.length_map]
  have hlive : s.live.length < 2 ^ 64 := by
    refine lt_of_le_of_lt ?_ hlimit
    rw [← hinv.objects.length_eq, List.length_append, PlistState.live, List.length_map]
    exact Nat.le_add_left _ _
  rw [hinv.counter, hcreated]
  omega

def emptyPlist : PlistState ℕ := PlistState.init [0] (fun _ => ⟨0, 0⟩) 60 0

def onePlist : PlistState ℕ := emptyPlist.step (· == ·) (.create 7, 0)

theorem onePlist_run :
    PlistRun (κ := ℕ) (· == ·) emptyPlist [(emptyPlist, .create 7, 0)] onePlist :=
  Run.nil.snoc ⟨⟨⟨le_rfl, by norm_num⟩, trivial⟩, rfl⟩

theorem plist_refines_one :
    RefinesList (κ := ℕ) (· == ·) 1 onePlist ∧ onePlist.entryNum = onePlist.live.length := by
  obtain ⟨hrefines, hcounter⟩ := plist_refines_iff (κ := ℕ) (· == ·) [0] (fun _ => ⟨0, 0⟩) 60 0 _
    onePlist (List.nodup_singleton 0) (by norm_num) onePlist_run
  exact ⟨hrefines, hcounter.2 rfl⟩

/-- The counter does not go down when an entry is freed. -/
theorem entryNum_drifts :
    PlistRun (κ := ℕ) (· == ·) emptyPlist
        [(emptyPlist, .create 7, 0), (onePlist, .free 0, 0)]
        (onePlist.step (· == ·) (.free (κ := ℕ) 0, 0)) ∧
      (onePlist.step (· == ·) (.free (κ := ℕ) 0, 0)).live = [] ∧
      (onePlist.step (· == ·) (.free (κ := ℕ) 0, 0)).entryNum = 1 := by
  have hlive : 0 ∈ onePlist.list.entries := List.mem_singleton_self 0
  exact ⟨onePlist_run.snoc ⟨⟨⟨le_rfl, by norm_num⟩, hlive⟩, rfl⟩, rfl, rfl⟩

end CloudHands.Table
