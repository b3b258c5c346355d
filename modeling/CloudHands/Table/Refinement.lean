import CloudHands.Table.System

/-!
# The session table is a finite map

Every operation keeps the three lookup tiers coherent with the map of the live
entries, as long as no entry is freed explicitly while it waits in the timeout ring.
A lookup then finds an entry exactly when the map has one.
-/

namespace CloudHands.Table

open CloudHands.Lib

variable {κ : Type*}

theorem create_mem_of_ne (cfg : PtableConfig κ) (tbl : Ptable κ) (key : κ) {entry e : ℕ} (now : ℕ)
    (h : e ≠ entry) : (ptableEntryCreate cfg tbl (some entry) key now).mem e = tbl.mem e := by
  simp [ptableEntryCreate, ptableEntryInit, ptableInsert, entryLastTimeUpdate, h]

theorem create_key (cfg : PtableConfig κ) (tbl : Ptable κ) (key : κ) (entry now : ℕ) :
    ((ptableEntryCreate cfg tbl (some entry) key now).mem entry).key = key := by
  simp [ptableEntryCreate, ptableEntryInit, ptableInsert, entryLastTimeUpdate]

theorem create_entries (cfg : PtableConfig κ) (tbl : Ptable κ) (key : κ) (entry now : ℕ) :
    (ptableEntryCreate cfg tbl (some entry) key now).entries =
      Function.update tbl.entries (ptableHeaderGet cfg key)
        (entry :: tbl.entries (ptableHeaderGet cfg key)) := by
  simp [ptableEntryCreate, ptableEntryInit, ptableInsert, entryLastTimeUpdate]

theorem create_ep (cfg : PtableConfig κ) (tbl : Ptable κ) (key : κ) (entry now : ℕ) :
    (ptableEntryCreate cfg tbl (some entry) key now).ep = tbl.ep.erase entry := by
  simp [ptableEntryCreate, ptableEntryInit, ptableInsert, entryLastTimeUpdate]

theorem create_lastEntry (cfg : PtableConfig κ) (tbl : Ptable κ) (key : κ) (entry now : ℕ) :
    (ptableEntryCreate cfg tbl (some entry) key now).lastEntry = some entry := by
  simp [ptableEntryCreate, ptableEntryInit, ptableInsert, entryLastTimeUpdate]

theorem create_timeoutEntries (cfg : PtableConfig κ) (tbl : Ptable κ) (key : κ) (entry now : ℕ) :
    (ptableEntryCreate cfg tbl (some entry) key now).timeoutEntries = tbl.timeoutEntries := by
  simp [ptableEntryCreate, ptableEntryInit, ptableInsert, entryLastTimeUpdate]

theorem create_caches (cfg : PtableConfig κ) {tbl : Ptable κ} (key : κ) {entry : ℕ} (now : ℕ)
    (hnew : entry ∉ tbl.caches) (hnodup : tbl.caches.Nodup)
    (hlen : tbl.nCaches = tbl.caches.length) :
    (∀ e ∈ (ptableEntryCreate cfg tbl (some entry) key now).caches,
        e = entry ∨ e ∈ tbl.caches) ∧
      (ptableEntryCreate cfg tbl (some entry) key now).caches.Nodup ∧
      (ptableEntryCreate cfg tbl (some entry) key now).nCaches =
        (ptableEntryCreate cfg tbl (some entry) key now).caches.length := by
  simp only [ptableEntryCreate, ptableEntryInit]
  exact cachesInsert_spec cfg hnew hnodup hlen

theorem Coherent.create {cfg : PtableConfig κ} {s : TableState κ} (h : Coherent cfg s) (key : κ)
    {entry : ℕ} (now : ℕ) (hfree : entry ∈ s.tbl.ep) :
    Coherent cfg (s.create cfg key entry now) := by
  have hdead : ¬ s.IsLive entry := h.pool entry hfree
  have hne : ∀ p ∈ s.live, p.1.entry ≠ entry := fun p hp heq => hdead ⟨p, hp, heq⟩
  have hnew : ∀ e, s.IsLive e → (s.create cfg key entry now).IsLive e := by
    intro e hlive
    obtain ⟨p, hp, heq⟩ := hlive
    exact ⟨p, List.mem_cons_of_mem _ hp, heq⟩
  have hself : (s.create cfg key entry now).IsLive entry := ⟨_, List.mem_cons_self, rfl⟩
  have hmem : ∀ e, e ≠ entry →
      (ptableEntryCreate cfg s.tbl (some entry) key now).mem e = s.tbl.mem e :=
    fun e he => create_mem_of_ne cfg s.tbl key now he
  obtain ⟨hcaches, hcnodup, hclen⟩ := create_caches cfg key now
    (fun hc => hdead (h.caches entry hc)) h.caches_nodup h.caches_length
  constructor
  · refine List.nodup_cons.2 ⟨fun hc => ?_, h.nodup⟩
    obtain ⟨p, hp, heq⟩ := List.mem_map.1 hc
    exact hne p hp heq
  · intro p hp
    rcases List.mem_cons.1 hp with rfl | hp
    · rfl
    · rw [← h.current p hp]
      simp only [TableState.create, Ptable.incarnation, hmem _ (hne p hp)]
  · intro p hp
    rcases List.mem_cons.1 hp with rfl | hp
    · exact create_key cfg s.tbl key entry now
    · rw [← h.key p hp]
      simp only [TableState.create, hmem _ (hne p hp)]
  · intro i e
    simp only [TableState.create, create_entries, List.mem_cons, exists_eq_or_imp]
    by_cases hi : i = ptableHeaderGet cfg key
    · rw [hi, Function.update_self, List.mem_cons, h.bucket]
      simp [Ptable.incarnation, eq_comm]
    · rw [Function.update_of_ne hi, h.bucket]
      simp [Ne.symm hi]
  · intro i
    simp only [TableState.create, create_entries]
    by_cases hi : i = ptableHeaderGet cfg key
    · rw [hi, Function.update_self]
      refine List.nodup_cons.2 ⟨fun hc => ?_, h.bucket_nodup _⟩
      obtain ⟨p, hp, heq, -⟩ := (h.bucket _ _).1 hc
      exact hne p hp heq
    · rw [Function.update_of_ne hi]
      exact h.bucket_nodup i
  · intro e he
    rcases hcaches e he with rfl | hold
    · exact hself
    · exact hnew e (h.caches e hold)
  · exact hcnodup
  · exact hclen
  · intro e he
    simp only [TableState.create, create_lastEntry, Option.mem_def, Option.some.injEq] at he
    exact he ▸ hself
  · intro e he hlive
    simp only [TableState.create, create_ep] at he
    obtain ⟨p, hp, heq⟩ := hlive
    rcases List.mem_cons.1 hp with rfl | hp
    · exact h.pool_nodup.not_mem_erase (heq ▸ he)
    · exact h.pool e (List.mem_of_mem_erase he) ⟨p, hp, heq⟩
  · simp only [TableState.create, create_ep]
    exact h.pool_nodup.erase entry

theorem Coherent.freed {cfg : PtableConfig κ} {s s' : TableState κ} {p : Incarnation × κ}
    {isTimeout : ℕ} (h : Coherent cfg s) (hp : p ∈ s.live)
    (htbl : s'.tbl = tblEntryFree s.tbl p.1.entry isTimeout) (hlive : s'.live = s.live.remove p.1) :
    Coherent cfg s' := by
  have hmem : ∀ q, q ∈ s'.live ↔ q ∈ s.live ∧ q.1.entry ≠ p.1.entry := by
    intro q
    rw [hlive, mem_remove]
    refine and_congr_right fun hq => not_congr ⟨fun heq => by rw [heq], fun heq => ?_⟩
    rw [h.unique hq hp heq]
  have hkeep : ∀ e, s.IsLive e → e ≠ p.1.entry → s'.IsLive e := by
    intro e he hne
    obtain ⟨q, hq, rfl⟩ := he
    exact ⟨q, (hmem q).2 ⟨hq, hne⟩, rfl⟩
  constructor
  · rw [hlive]
    exact h.nodup.sublist (List.filter_sublist.map _)
  · intro q hq
    rw [htbl]
    exact h.current q ((hmem q).1 hq).1
  · intro q hq
    rw [htbl]
    exact h.key q ((hmem q).1 hq).1
  · intro i e
    rw [htbl]
    simp only [tblEntryFree, (h.bucket_nodup i).mem_erase_iff, h.bucket]
    constructor
    · intro he
      obtain ⟨hne, q, hq, rfl, hi⟩ := he
      exact ⟨q, (hmem q).2 ⟨hq, hne⟩, rfl, hi⟩
    · intro he
      obtain ⟨q, hq, rfl, hi⟩ := he
      exact ⟨((hmem q).1 hq).2, q, ((hmem q).1 hq).1, rfl, hi⟩
  · intro i
    rw [htbl]
    exact (h.bucket_nodup i).erase _
  · intro e he
    rw [htbl] at he
    obtain ⟨hne, he⟩ := h.caches_nodup.mem_erase_iff.1 he
    exact hkeep e (h.caches e he) hne
  · rw [htbl]
    exact h.caches_nodup.erase _
  · rw [htbl]
    simp only [tblEntryFree, List.length_erase, h.caches_length]
  · intro e he
    rw [htbl] at he
    simp only [tblEntryFree, Option.mem_def] at he
    split at he
    · simp at he
    · rename_i hlast
      refine hkeep e (h.last e he) fun heq => hlast ?_
      rw [he, heq]
  · intro e he hlive'
    obtain ⟨q, hq, rfl⟩ := hlive'
    rw [htbl] at he
    simp only [tblEntryFree, List.mem_append, List.mem_singleton] at he
    rcases he with he | he
    · exact h.pool _ he ⟨q, ((hmem q).1 hq).1, rfl⟩
    · exact ((hmem q).1 hq).2 he
  · rw [htbl]
    refine List.nodup_append'.2 ⟨h.pool_nodup, by simp, ?_⟩
    intro e he he'
    obtain rfl := List.mem_singleton.1 he'
    exact h.pool _ he ⟨p, hp, rfl⟩

theorem Coherent.congr {cfg : PtableConfig κ} {s s' : TableState κ} (h : Coherent cfg s)
    (hlive : s'.live = s.live) (hentries : s'.tbl.entries = s.tbl.entries)
    (hep : s'.tbl.ep = s.tbl.ep)
    (hkey : ∀ e, (s'.tbl.mem e).key = (s.tbl.mem e).key)
    (hnumber : ∀ e, (s'.tbl.mem e).number = (s.tbl.mem e).number)
    (hcaches : ∀ e ∈ s'.tbl.caches, s.IsLive e) (hcnodup : s'.tbl.caches.Nodup)
    (hclen : s'.tbl.nCaches = s'.tbl.caches.length)
    (hlast : ∀ e ∈ s'.tbl.lastEntry, s.IsLive e) : Coherent cfg s' := by
  have hiff : ∀ e, s'.IsLive e ↔ s.IsLive e := by
    intro e
    rw [TableState.IsLive, TableState.IsLive, hlive]
  constructor
  · rw [hlive]
    exact h.nodup
  · intro p hp
    rw [hlive] at hp
    rw [← h.current p hp]
    simp only [Ptable.incarnation, hnumber]
  · intro p hp
    rw [hlive] at hp
    rw [hkey]
    exact h.key p hp
  · rw [hentries, hlive]
    exact h.bucket
  · rw [hentries]
    exact h.bucket_nodup
  · exact fun e he => (hiff e).2 (hcaches e he)
  · exact hcnodup
  · exact hclen
  · exact fun e he => (hiff e).2 (hlast e he)
  · rw [hep]
    exact fun e he hl => h.pool e he ((hiff e).1 hl)
  · rw [hep]
    exact h.pool_nodup

def Hits (cfg : PtableConfig κ) (s : TableState κ) (key : κ) (r : Option ℕ) : Prop :=
  ∀ e ∈ r, s.IsLive e ∧ ptableEntryEqual cfg s.tbl key e

theorem findFromLast_spec {cfg : PtableConfig κ} {s : TableState κ} (h : Coherent cfg s) (key : κ) :
    Coherent cfg { s with tbl := (ptableEntryFindFromLast cfg s.tbl key).2 } ∧
      Hits cfg s key (ptableEntryFindFromLast cfg s.tbl key).1 := by
  simp only [ptableEntryFindFromLast]
  cases hf : s.tbl.lastEntry.filter (ptableEntryEqual cfg s.tbl key) with
  | none => exact ⟨h, by simp [Hits]⟩
  | some entry =>
    obtain ⟨hlast, heq⟩ := Option.filter_eq_some_iff.1 hf
    refine ⟨h.congr rfl rfl rfl (fun _ => rfl) (fun _ => rfl) h.caches h.caches_nodup
      h.caches_length h.last, ?_⟩
    intro e he
    obtain rfl := Option.mem_some_iff.1 he
    exact ⟨h.last entry hlast, heq⟩

theorem findFromCaches_spec {cfg : PtableConfig κ} {s : TableState κ} (h : Coherent cfg s)
    (key : κ) :
    Coherent cfg { s with tbl := (ptableEntryFindFromCaches cfg s.tbl key).2 } ∧
      Hits cfg s key (ptableEntryFindFromCaches cfg s.tbl key).1 ∧
      ((ptableEntryFindFromCaches cfg s.tbl key).1 = none →
        ∀ e ∈ s.tbl.caches, ¬ ptableEntryEqual cfg s.tbl key e) := by
  simp only [ptableEntryFindFromCaches]
  cases hf : s.tbl.caches.find? (ptableEntryEqual cfg s.tbl key) with
  | none => exact ⟨h, by simp [Hits], fun _ e he => List.find?_eq_none.1 hf e he⟩
  | some entry =>
    have hmem := List.mem_of_find?_eq_some hf
    refine ⟨?_, ?_, by simp⟩
    · refine h.congr rfl rfl rfl (fun _ => rfl) (fun _ => rfl) ?_ ?_ ?_ ?_
      · intro e he
        dsimp only at he
        split at he
        · exact h.caches e he
        · rcases List.mem_cons.1 he with rfl | he
          · exact h.caches e hmem
          · exact h.caches e (List.mem_of_mem_erase he)
      · dsimp only
        split
        · exact h.caches_nodup
        · exact List.nodup_cons.2 ⟨h.caches_nodup.not_mem_erase, h.caches_nodup.erase _⟩
      · dsimp only
        rw [h.caches_length]
        split
        · rfl
        · have hpos := List.length_pos_of_mem hmem
          simp only [List.length_cons, List.length_erase_of_mem hmem]
          omega
      · intro e he
        obtain rfl := Option.mem_some_iff.1 he
        exact h.caches entry hmem
    · intro e he
      obtain rfl := Option.mem_some_iff.1 he
      exact ⟨h.caches entry hmem, List.find?_some hf⟩

theorem Coherent.mem_bucket {cfg : PtableConfig κ} {s : TableState κ} (h : Coherent cfg s) {key : κ}
    {p : Incarnation × κ} (hp : p ∈ s.live) (heq : cfg.entryEqual p.2 key) :
    p.1.entry ∈ s.tbl.entries (ptableHeaderGet cfg key) := by
  refine (h.bucket _ _).2 ⟨p, hp, rfl, ?_⟩
  rw [ptableHeaderGet, ptableHeaderGet, cfg.hash_coherent _ _ heq]

theorem findFromEntries_spec {cfg : PtableConfig κ} {s : TableState κ} (h : Coherent cfg s)
    (key : κ) (hmiss : ∀ e ∈ s.tbl.caches, ¬ ptableEntryEqual cfg s.tbl key e) :
    Coherent cfg { s with tbl := (ptableEntryFindFromEntries cfg s.tbl key).2 } ∧
      Hits cfg s key (ptableEntryFindFromEntries cfg s.tbl key).1 ∧
      ((ptableEntryFindFromEntries cfg s.tbl key).1 = none →
        ∀ p ∈ s.live, ¬ cfg.entryEqual p.2 key) := by
  simp only [ptableEntryFindFromEntries]
  cases hf : (s.tbl.entries (ptableHeaderGet cfg key)).find? (ptableEntryEqual cfg s.tbl key) with
  | none =>
    refine ⟨h, by simp [Hits], fun _ p hp heq => ?_⟩
    refine List.find?_eq_none.1 hf _ (h.mem_bucket hp heq) ?_
    rw [ptableEntryEqual, h.key p hp]
    exact heq
  | some entry =>
    have heq : ptableEntryEqual cfg s.tbl key entry := List.find?_some hf
    have hlive : s.IsLive entry := by
      obtain ⟨p, hp, he, -⟩ := (h.bucket _ _).1 (List.mem_of_find?_eq_some hf)
      exact ⟨p, hp, he⟩
    obtain ⟨hcaches, hcnodup, hclen⟩ := cachesInsert_spec cfg (fun hc => hmiss entry hc heq)
      h.caches_nodup h.caches_length
    refine ⟨?_, ?_, by simp⟩
    · refine h.congr rfl (by simp) (by simp) (by simp) (by simp) ?_ hcnodup hclen ?_
      · intro e he
        rcases hcaches e he with rfl | hold
        · exact hlive
        · exact h.caches e hold
      · intro e he
        obtain rfl := Option.mem_some_iff.1 he
        exact hlive
    · intro e he
      obtain rfl := Option.mem_some_iff.1 he
      exact ⟨hlive, heq⟩

theorem findFromLast_none {cfg : PtableConfig κ} {tbl : Ptable κ} {key : κ}
    (h : (ptableEntryFindFromLast cfg tbl key).1 = none) :
    (ptableEntryFindFromLast cfg tbl key).2 = tbl := by
  simp only [ptableEntryFindFromLast] at h ⊢
  split at h
  · rfl
  · simp at h

theorem findFromCaches_none {cfg : PtableConfig κ} {tbl : Ptable κ} {key : κ}
    (h : (ptableEntryFindFromCaches cfg tbl key).1 = none) :
    (ptableEntryFindFromCaches cfg tbl key).2 = tbl := by
  simp only [ptableEntryFindFromCaches] at h ⊢
  split at h
  · rfl
  · simp at h

theorem Coherent.touched {cfg : PtableConfig κ} {s : TableState κ} (h : Coherent cfg s)
    (entry now : ℕ) : Coherent cfg { s with tbl := entryLastTimeUpdate s.tbl entry now } := by
  have hmem : ∀ e, ((entryLastTimeUpdate s.tbl entry now).mem e).key = (s.tbl.mem e).key ∧
      ((entryLastTimeUpdate s.tbl entry now).mem e).number = (s.tbl.mem e).number := by
    intro e
    by_cases he : e = entry
    · simp [entryLastTimeUpdate, he]
    · simp [entryLastTimeUpdate, he]
  exact h.congr rfl rfl rfl (fun e => (hmem e).1) (fun e => (hmem e).2) h.caches h.caches_nodup
    h.caches_length h.last

def findTiers (cfg : PtableConfig κ) (tbl : Ptable κ) (key : κ) : Option ℕ × Ptable κ :=
  orElseFind (orElseFind (ptableEntryFindFromLast cfg tbl key)
    (ptableEntryFindFromCaches cfg · key)) (ptableEntryFindFromEntries cfg · key)

theorem findTiers_keeps {β : Type*} {get : Ptable κ → β} (cfg : PtableConfig κ) (key : κ)
    (hlast : ∀ tbl, get (ptableEntryFindFromLast cfg tbl key).2 = get tbl)
    (hcaches : ∀ tbl, get (ptableEntryFindFromCaches cfg tbl key).2 = get tbl)
    (hentries : ∀ tbl, get (ptableEntryFindFromEntries cfg tbl key).2 = get tbl)
    (tbl : Ptable κ) : get (findTiers cfg tbl key).2 = get tbl := by
  simp only [findTiers, orElseFind]
  split
  · split
    · exact hlast tbl
    · rw [hcaches, hlast]
  · rw [hentries]
    split
    · exact hlast tbl
    · rw [hcaches, hlast]

theorem findTiers_spec {cfg : PtableConfig κ} {s : TableState κ} (h : Coherent cfg s) (key : κ) :
    Coherent cfg { s with tbl := (findTiers cfg s.tbl key).2 } ∧
      Hits cfg s key (findTiers cfg s.tbl key).1 ∧
      ((findTiers cfg s.tbl key).1 = none → ∀ p ∈ s.live, ¬ cfg.entryEqual p.2 key) := by
  obtain ⟨hlast, hlasthit⟩ := findFromLast_spec h key
  obtain ⟨hcaches, hcachehit, hcachemiss⟩ := findFromCaches_spec h key
  cases hl : (ptableEntryFindFromLast cfg s.tbl key).1 with
  | some e =>
    have htiers : findTiers cfg s.tbl key = ptableEntryFindFromLast cfg s.tbl key := by
      simp [findTiers, orElseFind, hl]
    rw [htiers]
    exact ⟨hlast, hlasthit, by simp [hl]⟩
  | none =>
    have hsame := findFromLast_none hl
    cases hc : (ptableEntryFindFromCaches cfg s.tbl key).1 with
    | some e =>
      have htiers : findTiers cfg s.tbl key = ptableEntryFindFromCaches cfg s.tbl key := by
        simp [findTiers, orElseFind, hl, hc, hsame]
      rw [htiers]
      exact ⟨hcaches, hcachehit, by simp [hc]⟩
    | none =>
      have htiers : findTiers cfg s.tbl key = ptableEntryFindFromEntries cfg s.tbl key := by
        simp [findTiers, orElseFind, hl, hc, hsame, findFromCaches_none hc]
      rw [htiers]
      exact findFromEntries_spec h key (hcachemiss hc)

theorem ptableEntryFind_of_none {cfg : PtableConfig κ} {tbl : Ptable κ} {key : κ} (now : ℕ)
    (h : (findTiers cfg tbl key).1 = none) :
    ptableEntryFind cfg tbl key now = findTiers cfg tbl key := by
  simp only [ptableEntryFind, findTiers] at h ⊢
  rw [h]

theorem ptableEntryFind_of_some {cfg : PtableConfig κ} {tbl : Ptable κ} {key : κ} {entry : ℕ}
    (now : ℕ) (h : (findTiers cfg tbl key).1 = some entry) :
    ptableEntryFind cfg tbl key now =
      (some entry, entryLastTimeUpdate (findTiers cfg tbl key).2 entry now) := by
  simp only [ptableEntryFind, findTiers] at h ⊢
  rw [h]

theorem ptableEntryFind_spec {cfg : PtableConfig κ} {s : TableState κ} (h : Coherent cfg s)
    (key : κ) (now : ℕ) :
    Coherent cfg { s with tbl := (ptableEntryFind cfg s.tbl key now).2 } ∧
      (∀ e ∈ (ptableEntryFind cfg s.tbl key now).1,
        ∃ p ∈ s.live, p.1 = s.tbl.incarnation e ∧ cfg.entryEqual p.2 key) ∧
      ((ptableEntryFind cfg s.tbl key now).1 = none → ∀ p ∈ s.live, ¬ cfg.entryEqual p.2 key) := by
  obtain ⟨hcoh, hhit, hmiss⟩ := findTiers_spec h key
  cases hr : (findTiers cfg s.tbl key).1 with
  | none =>
    rw [ptableEntryFind_of_none now hr]
    exact ⟨hcoh, by simp [hr], fun _ => hmiss hr⟩
  | some entry =>
    rw [ptableEntryFind_of_some now hr]
    refine ⟨hcoh.touched entry now, ?_, by simp⟩
    intro e he
    obtain rfl := Option.mem_some_iff.1 he
    obtain ⟨⟨p, hp, rfl⟩, heq⟩ := hhit entry hr
    refine ⟨p, hp, (h.current p hp).symm, ?_⟩
    rw [ptableEntryEqual, h.key p hp] at heq
    exact heq

end CloudHands.Table
