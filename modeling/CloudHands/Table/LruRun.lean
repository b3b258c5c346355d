import CloudHands.Table.Lru

/-!
# The least recently used entry leaves the cache

The cache list is ordered by the last use of its entries. The entry found last is the first one of
the list, so that finding it again needs no promotion. A limit of zero is refused by the
configuration commands: the first insertion would take the head out of its own empty list.
-/

namespace CloudHands.Table

open Lib

variable {κ : Type*} {cfg : LruConfig κ} {tbl : LruTable κ} {u : LruUse κ} {cached : List ℕ}

def NullNode (l : Links ℕ) (entry : ℕ) : Prop := l.next (.entry entry) = none ∧
    l.prev (.entry entry) = none

theorem lruNodeEmpty_iff (tbl : LruTable κ) (entry : ℕ) :
    tbl.lruNodeEmpty entry = true ↔ NullNode tbl.caches entry := by
  simp [LruTable.lruNodeEmpty, NullNode, and_comm]

/-- What an insertion leaves of the list: all of it, or all but the last entry of a full one. -/
def Kept (limit : ℕ) (cached kept : List ℕ) : Prop :=
  (kept = cached ∧ cached.length < limit) ∨
    (cached.length = limit ∧ ∃ oldest, cached = kept ++ [oldest])

/-- What `_ptable_caches_insert` does. -/
structure Inserted (cfg : LruConfig κ) (tbl : LruTable κ) (cached : List ℕ) (entry : ℕ)
    (l : Links ℕ)
    (kept : List ℕ) : Prop where
  insert : tbl.cachesInsert cfg entry = some { tbl with caches := l, nCaches := kept.length + 1 }
  ring : l.Ring (entry :: kept)
  keeps : Kept cfg.nCachesLimits cached kept
  null : ∀ e, e ∉ entry :: kept → (e ∉ cached → NullNode tbl.caches e) → NullNode l e

theorem cachesInsert_inserted (hpos : 0 < cfg.nCachesLimits) (hring : tbl.caches.Ring cached)
    (hcount : tbl.nCaches = cached.length) (hlimit : tbl.nCaches ≤ cfg.nCachesLimits) {entry : ℕ}
    (hnew : entry ∉ cached) : ∃ l kept, Inserted cfg tbl cached entry l kept := by
  by_cases hfull : cfg.nCachesLimits ≤ tbl.nCaches
  · obtain rfl | ⟨kept, oldest, rfl⟩ := List.eq_nil_or_concat cached
    · rw [hcount] at hfull
      exact absurd hfull (Nat.not_le.2 hpos)
    · rw [List.concat_eq_append] at hring hcount hnew
      obtain ⟨hdel, hnull, hframe⟩ := hring.del (a := oldest) (by simp)
      have hoff : oldest ∉ kept := fun hmem =>
        (List.nodup_append.1 hring.nodup).2.2 oldest hmem oldest List.mem_cons_self rfl
      have herase : (kept ++ [oldest]).erase oldest = kept := by
        rw [List.erase_append_right _ hoff, List.erase_cons_head, List.append_nil]
      rw [herase] at hdel
      have hlast : tbl.caches.prev .head = some (.entry oldest) := by
        rw [hring.path.prev, Links.lastNode_concat]
      have hentry : entry ∉ kept := fun hmem => hnew (List.mem_append_left _ hmem)
      obtain ⟨l, hadd, hl, hrest⟩ := hdel.add hentry
      have hlength : tbl.nCaches = kept.length + 1 := by
        rw [hcount, List.length_append, List.length_singleton]
      refine ⟨l, kept, ⟨?_, hl, .inr ⟨?_, oldest, List.concat_eq_append⟩, fun e he hoffe => ?_⟩⟩
      · rw [LruTable.cachesInsert, if_pos hfull, hlast, Option.bind_some, hadd, Option.map_some,
          ← hlength]
      · rw [List.concat_eq_append, ← hcount]
        exact le_antisymm hlimit hfull
      · rw [NullNode, (hrest e he).1, (hrest e he).2]
        by_cases heq : e = oldest
        · exact heq ▸ hnull
        · have hecached : e ∉ kept ++ [oldest] := by
            simp only [List.mem_append, List.mem_singleton, not_or]
            exact ⟨List.not_mem_of_not_mem_cons he, heq⟩
          rw [(hframe e hecached).1, (hframe e hecached).2]
          exact hoffe (List.concat_eq_append ▸ hecached)
  · obtain ⟨l, hadd, hl, hrest⟩ := hring.add hnew
    refine ⟨l, cached, ⟨?_, hl, .inl ⟨rfl, hcount ▸ Nat.lt_of_not_le hfull⟩, fun e he hoffe => ?_⟩⟩
    · rw [LruTable.cachesInsert, if_neg hfull, hadd, Option.map_some, hcount]
    · rw [NullNode, (hrest e he).1, (hrest e he).2]
      exact hoffe (List.not_mem_of_not_mem_cons he)

theorem Kept.sublist {limit : ℕ} {kept : List ℕ} (h : Kept limit cached kept) :
    kept.Sublist cached := by
  rcases h with ⟨rfl, -⟩ | ⟨-, oldest, rfl⟩
  · exact List.Sublist.refl kept
  · exact List.sublist_append_left kept [oldest]

theorem Kept.length_lt {limit : ℕ} {kept : List ℕ} (h : Kept limit cached kept) :
    kept.length < limit := by
  rcases h with ⟨rfl, hlt⟩ | ⟨hlength, oldest, rfl⟩
  · exact hlt
  · rw [← hlength, List.length_append]
    exact Nat.lt_succ_self _

structure Stocked (tbl : LruTable κ) (live : List ℕ) : Prop where
  bucket : ∀ i, ∀ e ∈ tbl.entries i, e ∈ live
  bucket_nodup : ∀ i, (tbl.entries i).Nodup
  nodup : live.Nodup
  pool : ∀ e ∈ tbl.ep, e ∉ live
  pool_nodup : tbl.ep.Nodup

structure LruInv (cfg : LruConfig κ) (u : LruUse κ) (cached : List ℕ) : Prop where
  sound : u.Sound cfg cached
  null : ∀ e ∈ u.live, e ∉ cached → NullNode u.tbl.caches e
  last : ∀ e ∈ u.tbl.lastEntry, cached.head? = some e
  recent : cached.Pairwise (u.lastUse · > u.lastUse ·)
  past : ∀ e ∈ cached, u.lastUse e < u.clock
  stocked : Stocked u.tbl u.live

theorem LruInv.init (cfg : LruConfig κ) {ep : List ℕ} (hep : ep.Nodup) (mem : ℕ → PtableEntry κ) :
    LruInv cfg (.init ep mem) [] where
  sound := ⟨.empty, rfl, Nat.zero_le _, List.forall_mem_nil _⟩
  null := List.forall_mem_nil _
  last := nofun
  recent := List.Pairwise.nil
  past := List.forall_mem_nil _
  stocked :=
    { bucket := fun _ => List.forall_mem_nil _
      bucket_nodup := fun _ => List.nodup_nil
      nodup := List.nodup_nil
      pool := fun _ _ => List.not_mem_nil
      pool_nodup := hep }

theorem recent_use {entry : ℕ} {kept : List ℕ} (hnew : entry ∉ kept)
    (hrecent : kept.Pairwise (u.lastUse · > u.lastUse ·))
    (hpast : ∀ e ∈ kept, u.lastUse e < u.clock) :
    (entry :: kept).Pairwise
        (Function.update u.lastUse entry u.clock · > Function.update u.lastUse entry u.clock ·) ∧
      ∀ e ∈ entry :: kept, Function.update u.lastUse entry u.clock e < u.clock + 1 := by
  have hkept : ∀ e ∈ kept, Function.update u.lastUse entry u.clock e = u.lastUse e := by
    intro e he
    exact Function.update_of_ne (fun heq : e = entry => hnew (heq ▸ he)) _ _
  refine ⟨List.pairwise_cons.2 ⟨fun e he => ?_, hrecent.imp_of_mem fun ha hb hab => ?_⟩, ?_⟩
  · rw [Function.update_self, hkept e he]
    exact hpast e he
  · rw [hkept _ ha, hkept _ hb]
    exact hab
  · refine List.forall_mem_cons.2 ⟨?_, fun e he => ?_⟩
    · rw [Function.update_self]
      exact Nat.lt_succ_self _
    · rw [hkept e he]
      exact (hpast e he).trans (Nat.lt_succ_self _)

theorem LruInv.front (h : LruInv cfg u cached) {entry : ℕ} {kept : List ℕ} {tbl : LruTable κ}
    {live : List ℕ} (hkept : kept.Sublist cached) (hlength : kept.length < cfg.nCachesLimits)
    (hring : tbl.caches.Ring (entry :: kept)) (hcount : tbl.nCaches = kept.length + 1)
    (hlast : tbl.lastEntry = some entry)
    (hnull : ∀ e ∈ live, e ∉ entry :: kept → NullNode tbl.caches e)
    (hlive : entry ∈ live) (hlives : ∀ e ∈ u.live, e ∈ live) (hstocked : Stocked tbl live) :
    LruInv cfg ({ u with tbl := tbl, live := live }.use (some entry)) (entry :: kept) := by
  have hnew := (List.nodup_cons.1 hring.nodup).1
  obtain ⟨hrecent, hpast⟩ := recent_use hnew (h.recent.sublist hkept)
    fun e he => h.past e (hkept.subset he)
  refine ⟨⟨hring, hcount, ?_, ?_⟩, hnull, ?_, hrecent, hpast, hstocked⟩
  · exact hcount.le.trans hlength
  · exact List.forall_mem_cons.2 ⟨hlive, fun e he => hlives e (h.sound.live e (hkept.subset he))⟩
  · intro e he
    rw [Option.mem_def, LruUse.use, hlast] at he
    rw [List.head?_cons, Option.some.inj he]

def Dropped (cfg : LruConfig κ) (op : LruOp κ) (cached cached' : List ℕ) : Prop :=
  ∀ e ∈ cached, e ∉ cached' → (∃ isTimeout, op = .free e isTimeout) ∨
    (cached.length = cfg.nCachesLimits ∧ ∃ kept, cached = kept ++ [e])

theorem Dropped.refl (cfg : LruConfig κ) (op : LruOp κ) (cached : List ℕ) :
    Dropped cfg op cached cached :=
  fun _ he hnot => absurd he hnot

theorem Kept.dropped {kept : List ℕ} (h : Kept cfg.nCachesLimits cached kept) (op : LruOp κ)
    (entry : ℕ) :
    Dropped cfg op cached (entry :: kept) := by
  intro e he hnot
  have hoff := List.not_mem_of_not_mem_cons hnot
  rcases h with ⟨rfl, -⟩ | ⟨hlength, oldest, rfl⟩
  · exact absurd he hoff
  · obtain rfl := List.mem_singleton.1 ((List.mem_append.1 he).resolve_left hoff)
    exact .inr ⟨hlength, kept, rfl⟩

theorem Stocked.congr {live : List ℕ} (h : Stocked tbl live) {tbl' : LruTable κ}
    (hentries : tbl'.entries = tbl.entries) (hpool : tbl'.ep = tbl.ep) : Stocked tbl' live where
  bucket := hentries ▸ h.bucket
  bucket_nodup := hentries ▸ h.bucket_nodup
  nodup := h.nodup
  pool := hpool ▸ h.pool
  pool_nodup := hpool ▸ h.pool_nodup

theorem Stocked.create {live : List ℕ} (h : Stocked tbl live) {entry : ℕ} (hep : entry ∈ tbl.ep)
    (i : ℕ) {tbl' : LruTable κ} (hpool : tbl'.ep = tbl.ep.erase entry)
    (hentries : tbl'.entries = Function.update tbl.entries i (entry :: tbl.entries i)) :
    Stocked tbl' (entry :: live) := by
  have hdead := h.pool entry hep
  constructor
  · intro k e he
    rw [hentries] at he
    by_cases hk : k = i
    · rw [hk, Function.update_self] at he
      rcases List.mem_cons.1 he with rfl | he
      · exact List.mem_cons_self
      · exact List.mem_cons_of_mem _ (h.bucket i e he)
    · rw [Function.update_of_ne hk] at he
      exact List.mem_cons_of_mem _ (h.bucket k e he)
  · intro k
    rw [hentries]
    by_cases hk : k = i
    · rw [hk, Function.update_self]
      exact List.nodup_cons.2 ⟨fun hmem => hdead (h.bucket i entry hmem), h.bucket_nodup i⟩
    · rw [Function.update_of_ne hk]
      exact h.bucket_nodup k
  · exact List.nodup_cons.2 ⟨hdead, h.nodup⟩
  · intro e he
    rw [hpool] at he
    obtain ⟨hne, he⟩ := h.pool_nodup.mem_erase_iff.1 he
    exact fun hmem => h.pool e he ((List.mem_cons.1 hmem).resolve_left hne)
  · rw [hpool]
    exact h.pool_nodup.erase entry

theorem Stocked.free {live : List ℕ} (h : Stocked tbl live) {entry : ℕ} (hentry : entry ∈ live)
    (isTimeout : ℕ) : Stocked (tbl.entryFree entry isTimeout) (live.erase entry) := by
  constructor
  · intro i e he
    obtain ⟨hne, he⟩ := (h.bucket_nodup i).mem_erase_iff.1 he
    exact h.nodup.mem_erase_iff.2 ⟨hne, h.bucket i e he⟩
  · exact fun i => (h.bucket_nodup i).erase entry
  · exact h.nodup.erase entry
  · intro e he hmem
    obtain ⟨hne, hlive⟩ := h.nodup.mem_erase_iff.1 hmem
    rcases List.mem_append.1 he with he | he
    · exact h.pool e he hlive
    · exact hne (List.mem_singleton.1 he)
  · refine List.nodup_append.2 ⟨h.pool_nodup, List.nodup_singleton entry, fun e he e' he' => ?_⟩
    rw [List.mem_singleton.1 he']
    rintro rfl
    exact h.pool e he hentry

theorem LruInv.create (hpos : 0 < cfg.nCachesLimits) (h : LruInv cfg u cached) (key : κ)
    {entry : Option ℕ} (now : ℕ) (hallows : u.Allows (.create key entry now)) :
    ∃ u' cached', u.step cfg (.create key entry now) = some u' ∧ LruInv cfg u' cached' ∧
      Dropped cfg (.create key entry now) cached cached' := by
  cases entry with
  | none =>
    refine ⟨_, cached, rfl, ?_, Dropped.refl _ _ _⟩
    exact ⟨⟨h.sound.ring, h.sound.count, h.sound.limit, h.sound.live⟩, h.null, h.last, h.recent,
      h.past,
      h.stocked.congr rfl rfl⟩
  | some entry =>
    have hep : entry ∈ u.tbl.ep := hallows entry rfl
    have hdead := h.stocked.pool entry hep
    have hnew : entry ∉ cached := fun hmem => hdead (h.sound.live entry hmem)
    let mem := Function.update u.tbl.mem entry
      { u.tbl.mem entry with key := key, number := (u.tbl.mem entry).number + 1 }
    let bucket := LruTable.headerGet cfg key
    let tbl : LruTable κ :=
      { u.tbl with
        ep := u.tbl.ep.erase entry
        mem := Function.update mem entry { mem entry with lastTime := now }
        lastEntry := some entry
        entries := Function.update u.tbl.entries bucket (entry :: u.tbl.entries bucket) }
    have hring : tbl.caches.Ring cached := h.sound.ring
    obtain ⟨l, kept, hins⟩ := cachesInsert_inserted hpos hring h.sound.count h.sound.limit hnew
    refine ⟨{ u with
        tbl := { tbl with caches := l, nCaches := kept.length + 1 }
        live := entry :: u.live }.use (some entry), entry :: kept, ?_, ?_, hins.keeps.dropped _ _⟩
    · rw [LruUse.step, LruTable.entryCreate]
      exact congrArg (Option.map _) hins.insert
    · refine h.front hins.keeps.sublist hins.keeps.length_lt hins.ring rfl rfl (fun e he hoff => ?_)
        List.mem_cons_self (fun e he => List.mem_cons_of_mem _ he)
        (h.stocked.create hep bucket rfl rfl)
      refine hins.null e hoff fun hcached => h.null e ?_ hcached
      exact (List.mem_cons.1 he).resolve_left (List.ne_of_not_mem_cons hoff)

theorem LruInv.free (h : LruInv cfg u cached) {entry : ℕ} (isTimeout : ℕ)
    (hallows : u.Allows (.free entry isTimeout)) :
    ∃ u' cached', u.step cfg (.free entry isTimeout) = some u' ∧ LruInv cfg u' cached' ∧
      Dropped cfg (.free entry isTimeout) cached cached' := by
  have hring := h.sound.ring
  have hnodup := hring.nodup
  have hsub : (cached.erase entry).Sublist cached := List.erase_sublist
  have hlinks : (u.tbl.entryFree entry isTimeout).caches.Ring (cached.erase entry) ∧
      (u.tbl.entryFree entry isTimeout).nCaches = (cached.erase entry).length ∧
      ∀ e ∈ u.live, e ≠ entry → e ∉ cached.erase entry →
        NullNode (u.tbl.entryFree entry isTimeout).caches e := by
    by_cases hmem : entry ∈ cached
    · have hnode : ¬ u.tbl.lruNodeEmpty entry = true := by
        rw [lruNodeEmpty_iff, NullNode]
        rintro ⟨hnext, -⟩
        have hsome := hring.next_isSome hmem
        rw [hnext] at hsome
        cases hsome
      obtain ⟨hdel, -, hframe⟩ := hring.del hmem
      simp only [LruTable.entryFree, if_neg hnode]
      refine ⟨hdel, ?_, fun e he hne hoff => ?_⟩
      · rw [h.sound.count, List.length_erase_of_mem hmem]
      · have hcached : e ∉ cached := fun hmem => hoff ((List.mem_erase_of_ne hne).2 hmem)
        rw [NullNode, (hframe e hcached).1, (hframe e hcached).2]
        exact h.null e he hcached
    · have hnode : u.tbl.lruNodeEmpty entry = true :=
        (lruNodeEmpty_iff _ _).2 (h.null entry hallows hmem)
      simp only [LruTable.entryFree, if_pos hnode, List.erase_of_not_mem hmem]
      exact ⟨hring, h.sound.count, fun e he _ hoff => h.null e he hoff⟩
  obtain ⟨hring', hcount', hnull'⟩ := hlinks
  refine ⟨_, cached.erase entry, rfl,
    ⟨⟨hring', hcount', ?_, fun e he => ?_⟩, fun e he => ?_, fun e he => ?_,
    h.recent.sublist hsub, fun e he => h.past e (hsub.subset he), h.stocked.free hallows isTimeout⟩,
    fun e he hoff => ?_⟩
  · have hlimit := h.sound.limit
    have hle := hsub.length_le
    rw [h.sound.count] at hlimit
    exact (hcount'.le.trans hle).trans hlimit
  · obtain ⟨hne, he⟩ := hnodup.mem_erase_iff.1 he
    exact h.stocked.nodup.mem_erase_iff.2 ⟨hne, h.sound.live e he⟩
  · obtain ⟨hne, he⟩ := h.stocked.nodup.mem_erase_iff.1 he
    exact hnull' e he hne
  · by_cases hlast : u.tbl.lastEntry = some entry
    · simp [LruTable.entryFree, hlast] at he
    · simp only [LruTable.entryFree, if_neg hlast] at he
      have hhead := h.last e he
      have hne : e ≠ entry := fun heq => hlast (heq ▸ he)
      obtain ⟨rest, rfl⟩ := List.head?_eq_some_iff.1 hhead
      rw [List.erase_cons_tail (by simpa using hne), List.head?_cons]
  · have heq : e = entry := by
      by_contra hne
      exact hoff ((List.mem_erase_of_ne hne).2 he)
    exact .inl ⟨isTimeout, heq ▸ rfl⟩

inductive Finds (cfg : LruConfig κ) (u : LruUse κ) (cached : List ℕ) : Option ℕ × LruTable κ → Prop
  | miss : Finds cfg u cached (none, u.tbl)
  | hit {entry : ℕ} {kept : List ℕ} {tbl : LruTable κ} (hlive : entry ∈ u.live)
      (hsub : kept.Sublist cached) (hlength : kept.length < cfg.nCachesLimits)
      (hring : tbl.caches.Ring (entry :: kept)) (hcount : tbl.nCaches = kept.length + 1)
      (hlast : tbl.lastEntry = some entry)
      (hnull : ∀ e ∈ u.live, e ∉ entry :: kept → NullNode tbl.caches e)
      (hstocked : Stocked tbl u.live) (hdropped : ∀ op, Dropped cfg op cached (entry :: kept)) :
      Finds cfg u cached (some entry, tbl)

theorem LruInv.findFromLast (h : LruInv cfg u cached) (key : κ) :
    Finds cfg u cached (u.tbl.findFromLast cfg key) := by
  unfold LruTable.findFromLast
  cases hfind : u.tbl.lastEntry.filter (u.tbl.entryEqual cfg key) with
  | none => exact .miss
  | some entry =>
    have hlast : u.tbl.lastEntry = some entry := (Option.filter_eq_some_iff.1 hfind).1
    obtain ⟨kept, rfl⟩ := List.head?_eq_some_iff.1 (h.last entry hlast)
    have hcount := h.sound.count
    have hlimit := h.sound.limit
    rw [List.length_cons] at hcount
    exact .hit (h.sound.live entry List.mem_cons_self) (List.sublist_cons_self entry kept)
      (by omega) h.sound.ring hcount hlast h.null
      (h.stocked.congr rfl rfl) fun op => Dropped.refl cfg op _

theorem LruInv.findFromCaches (h : LruInv cfg u cached) (key : κ) :
    ∃ r, u.tbl.findFromCaches cfg key = some r ∧ Finds cfg u cached r ∧
      (r.1 = none → r.2 = u.tbl ∧ ∀ e ∈ cached, ¬ u.tbl.entryEqual cfg key e = true) := by
  have hring := h.sound.ring
  have hsearch := Links.find_path (p := u.tbl.entryEqual cfg key) hring.path
    (Nat.lt_succ_of_le h.sound.count.ge)
  rw [LruTable.findFromCaches, hsearch, Option.bind_some]
  cases hfind : cached.find? (u.tbl.entryEqual cfg key) with
  | none => exact ⟨_, rfl, .miss, fun _ => ⟨rfl, fun e he => List.find?_eq_none.1 hfind e he⟩⟩
  | some entry =>
    have hmem := List.mem_of_find?_eq_some hfind
    have hlive := h.sound.live entry hmem
    have hcount := h.sound.count
    have hlimit := h.sound.limit
    have hpositive := List.length_pos_of_mem hmem
    have herase := List.length_erase_of_mem hmem
    by_cases hfirst : u.tbl.caches.next .head = some (.entry entry)
    · refine ⟨_, congrArg (Option.map _) (if_pos hfirst), ?_, nofun⟩
      rw [hring.path.next] at hfirst
      cases cached with
      | nil => cases Option.some.inj hfirst
      | cons e kept =>
        obtain rfl := ListNode.entry.inj (Option.some.inj hfirst)
        rw [List.length_cons] at hcount
        exact .hit hlive (List.sublist_cons_self e kept) (by omega) hring hcount rfl h.null
          (h.stocked.congr rfl rfl) fun op => Dropped.refl cfg op _
    · obtain ⟨hdel, -, hframe⟩ := hring.del hmem
      obtain ⟨l, hadd, hl, hrest⟩ := hdel.add (hring.nodup.not_mem_erase)
      refine ⟨_, congrArg (Option.map _) ((if_neg hfirst).trans hadd), ?_, nofun⟩
      have hback : ∀ e ∈ cached, e ∈ entry :: cached.erase entry := by
        intro e he
        by_cases heq : e = entry
        · exact heq ▸ List.mem_cons_self
        · exact List.mem_cons_of_mem _ ((List.mem_erase_of_ne heq).2 he)
      refine .hit hlive List.erase_sublist (by omega) hl (by dsimp only; omega) rfl
        (fun e he hoff => ?_)
        (h.stocked.congr rfl rfl) fun op e he hoff => absurd (hback e he) hoff
      have hcached : e ∉ cached := fun hmem => hoff (hback e hmem)
      rw [NullNode, (hrest e hoff).1, (hrest e hoff).2, (hframe e hcached).1, (hframe e hcached).2]
      exact h.null e he hcached

theorem LruInv.findFromEntries (hpos : 0 < cfg.nCachesLimits) (h : LruInv cfg u cached) (key : κ)
    (hmiss : ∀ e ∈ cached, ¬ u.tbl.entryEqual cfg key e = true) :
    ∃ r, u.tbl.findFromEntries cfg key = some r ∧ Finds cfg u cached r := by
  unfold LruTable.findFromEntries
  cases hfind : (u.tbl.entries (LruTable.headerGet cfg key)).find? (u.tbl.entryEqual cfg key) with
  | none => exact ⟨_, rfl, .miss⟩
  | some entry =>
    have hlive := h.stocked.bucket _ entry (List.mem_of_find?_eq_some hfind)
    have hnew : entry ∉ cached := fun hmem => hmiss entry hmem (List.find?_some hfind)
    obtain ⟨l, kept, hins⟩ :=
      cachesInsert_inserted hpos h.sound.ring h.sound.count h.sound.limit hnew
    refine ⟨_, congrArg (Option.map _) hins.insert, ?_⟩
    exact .hit hlive hins.keeps.sublist hins.keeps.length_lt hins.ring rfl rfl
      (fun e he hoff => hins.null e hoff fun hcached => h.null e he hcached)
      (h.stocked.congr rfl rfl) fun op => hins.keeps.dropped op entry

theorem LruInv.findTiers (hpos : 0 < cfg.nCachesLimits) (h : LruInv cfg u cached) (key : κ) :
    ∃ r, (LruTable.orElseFind (u.tbl.findFromLast cfg key) (LruTable.findFromCaches cfg · key)).bind
        (LruTable.orElseFind · (LruTable.findFromEntries cfg · key)) = some r ∧
          Finds cfg u cached r := by
  have hlast := h.findFromLast key
  generalize u.tbl.findFromLast cfg key = r at hlast ⊢
  cases hlast with
  | hit hlive hsub hlength hring hcount hlast hnull hstocked hdropped =>
    exact ⟨_, rfl, .hit hlive hsub hlength hring hcount hlast hnull hstocked hdropped⟩
  | miss =>
    obtain ⟨r, hr, hfinds, hmiss⟩ := h.findFromCaches key
    simp only [LruTable.orElseFind, hr, Option.bind_some]
    cases hfinds with
    | hit hlive hsub hlength hring hcount hlast hnull hstocked hdropped =>
      exact ⟨_, rfl, .hit hlive hsub hlength hring hcount hlast hnull hstocked hdropped⟩
    | miss => exact h.findFromEntries hpos key (hmiss rfl).2

theorem LruInv.entryFind (hpos : 0 < cfg.nCachesLimits) (h : LruInv cfg u cached)
    (key : κ) (now : ℕ) :
    ∃ r, u.tbl.entryFind cfg key now = some r ∧ Finds cfg u cached r := by
  obtain ⟨r, hr, hfinds⟩ := h.findTiers hpos key
  rw [LruTable.entryFind, hr, Option.map_some]
  cases hfinds with
  | miss => exact ⟨_, rfl, .miss⟩
  | hit hlive hsub hlength hring hcount hlast hnull hstocked hdropped =>
    exact ⟨_, rfl,
      .hit hlive hsub hlength hring hcount hlast hnull (hstocked.congr rfl rfl) hdropped⟩

theorem LruInv.find (hpos : 0 < cfg.nCachesLimits) (h : LruInv cfg u cached) (key : κ) (now : ℕ) :
    ∃ u' cached', u.step cfg (.find key now) = some u' ∧ LruInv cfg u' cached' ∧
      Dropped cfg (.find key now) cached cached' := by
  obtain ⟨r, hr, hfinds⟩ := h.entryFind hpos key now
  rw [LruUse.step, hr, Option.map_some]
  cases hfinds with
  | miss => exact ⟨_, cached, rfl, h, Dropped.refl _ _ _⟩
  | hit hlive hsub hlength hring hcount hlast hnull hstocked hdropped =>
    exact ⟨_, _, rfl, h.front hsub hlength hring hcount hlast hnull hlive (fun _ he => he) hstocked,
      hdropped _⟩

theorem LruInv.step (hpos : 0 < cfg.nCachesLimits) (h : LruInv cfg u cached) {op : LruOp κ}
    (hallows : u.Allows op) :
    ∃ u' cached', u.step cfg op = some u' ∧ LruInv cfg u' cached' ∧
      Dropped cfg op cached cached' := by
  cases op with
  | create key entry now => exact h.create hpos key now hallows
  | find key now => exact h.find hpos key now
  | free entry isTimeout => exact h.free isTimeout hallows

theorem LruInv.linked_iff (h : LruInv cfg u cached) (e : ℕ) : u.tbl.Linked e ↔ e ∈ cached := by
  constructor
  · rintro ⟨cached', hring, he⟩
    rwa [h.sound.ring.unique hring]
  · exact fun he => ⟨cached, h.sound.ring, he⟩

theorem LruInv.evictsOldest (hpos : 0 < cfg.nCachesLimits) (h : LruInv cfg u cached) {op : LruOp κ}
    {u' : LruUse κ} (hallows : u.Allows op) (hstep : u.step cfg op = some u') :
      EvictsOldest cfg u op u' := by
  obtain ⟨u₁, cached', hstep₁, hinv, hdropped⟩ := h.step hpos hallows
  obtain rfl := Option.some.inj (hstep.symm.trans hstep₁)
  intro e he hoff hfree
  rw [h.linked_iff] at he
  rw [hinv.linked_iff] at hoff
  rcases hdropped e he hoff with ⟨isTimeout, hop⟩ | ⟨hfull, kept, rfl⟩
  · exact absurd hop (hfree isTimeout)
  · refine ⟨h.sound.count.trans hfull, fun e' he' hne => ?_⟩
    rw [h.linked_iff, List.mem_append, List.mem_singleton] at he'
    exact (List.pairwise_append.1 h.recent).2.2 e' (he'.resolve_right hne) e List.mem_cons_self

/-- With room for one entry at least, the cache list of every run is a ring of live entries which
`n_caches` counts, and every eviction takes the least recently used one. -/
theorem lru_sound (cfg : LruConfig κ) (hpos : 0 < cfg.nCachesLimits) (ep : List ℕ) (hep : ep.Nodup)
    (mem : ℕ → PtableEntry κ) (ops : List (LruOp κ))
    (h : Follows (LruUse.step cfg) LruUse.Allows (.init ep mem) ops) :
    ∃ u cached, runFrom (LruUse.step cfg) (.init ep mem) ops = some u ∧ u.Sound cfg cached ∧
      ∀ op u', u.Allows op → u.step cfg op = some u' → EvictsOldest cfg u op u' := by
  obtain ⟨u, hrun, cached, hinv⟩ := h.run (fun u => ∃ cached, LruInv cfg u cached)
    (fun ⟨_, hinv⟩ hop =>
      let ⟨u', cached', hstep, hinv', _⟩ := hinv.step hpos hop
      ⟨u', hstep, cached', hinv'⟩)
    ⟨[], LruInv.init cfg hep mem⟩
  exact ⟨u, cached, hrun, hinv.sound, fun op u' hallows hstep =>
    hinv.evictsOldest hpos hallows hstep⟩

def oneCacheConfig (nCachesLimits : ℕ) : LruConfig ℕ := ⟨id, (· == ·), 0, nCachesLimits⟩

def twoEntries : List (LruOp ℕ) :=
  [.create 7 (some 0) 10, .create 8 (some 1) 11, .find 7 12, .free 0 0]

theorem twoEntries_sound :
    0 < (oneCacheConfig 1).nCachesLimits ∧ [0, 1].Nodup ∧
      Follows (LruUse.step (oneCacheConfig 1)) LruUse.Allows (.init [0, 1] fun _ => ⟨0, 0, 0, 0⟩)
        twoEntries ∧
      ∃ u cached, runFrom (LruUse.step (oneCacheConfig 1)) (.init [0, 1] fun _ => ⟨0, 0, 0, 0⟩)
          twoEntries = some u ∧ u.Sound (oneCacheConfig 1) cached ∧
        ∀ op u', u.Allows op → u.step (oneCacheConfig 1) op = some u' →
          EvictsOldest (oneCacheConfig 1) u op u' := by
  have h : Follows (LruUse.step (oneCacheConfig 1)) LruUse.Allows (.init [0, 1] fun _ =>
    ⟨0, 0, 0, 0⟩)
      twoEntries := by
    decide +kernel
  exact ⟨by decide, by decide, h, lru_sound (oneCacheConfig 1) (by decide) [0, 1] (by decide) _ _ h⟩

/-- Without room for an entry the first insertion writes through a null link. -/
theorem noRoom_not_sound :
    ¬ ∀ (cfg : LruConfig ℕ) (ep : List ℕ), ep.Nodup →
      ∀ (mem : ℕ → PtableEntry ℕ) (ops : List (LruOp ℕ)),
      Follows (LruUse.step cfg) LruUse.Allows (.init ep mem) ops →
      ∃ u cached, runFrom (LruUse.step cfg) (.init ep mem) ops = some u ∧ u.Sound cfg cached ∧
        ∀ op u', u.Allows op → u.step cfg op = some u' → EvictsOldest cfg u op u' := by
  intro hclaim
  obtain ⟨u, cached, hrun, -⟩ := hclaim (oneCacheConfig 0) [0] (by decide) (fun _ => ⟨0, 0, 0, 0⟩)
    [.create 7 (some 0) 10] (by decide +kernel)
  have hnone : (runFrom (LruUse.step (oneCacheConfig 0)) (.init [0] fun _ => ⟨0, 0, 0, 0⟩)
      [.create 7 (some 0) 10]).isNone := by
    decide +kernel
  rw [hrun] at hnone
  cases hnone

end CloudHands.Table
