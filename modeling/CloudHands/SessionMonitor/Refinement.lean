import CloudHands.SessionMonitor.Scan

/-!
# The session monitor refines its store

Every operation on a table that represents a store does what the operation of the store does, and
the table represents the new store. A key is added only when no active watch has it, which the
table decides by the lookup for packets: the lookup prefers the highest type, and nothing of a
higher type covers what is looked up.
-/

namespace CloudHands.SessionMonitor

open Lib

variable {m : Monitor} {s : Store}

theorem Represents.slots (h : Represents m s) :
    ∃ free, Slots m (s.watches.map Watch.encode) free := by
  obtain ⟨free, hitems, hfree⟩ := h.items
  refine ⟨free, hitems, h.size, ?_, hfree⟩
  intro x hx
  obtain ⟨w, -, rfl⟩ := List.mem_map.1 hx
  exact encode_state_ne w

theorem candidate_encode (x : Watch) (q : FourTuple) :
    Candidate q x.encode ↔ x.stopped = false ∧ x.key.Covers q := by
  rw [Candidate, isMatch_encode]
  refine and_congr_left fun _ => ?_
  simp only [Watch.encode]
  cases x.stopped <;> simp

theorem Represents.itemFind (h : Represents m s) (q : FourTuple) :
    ∃ r, itemFind m q = some r ∧
      Best (fun x : Watch => x.stopped = false ∧ x.key.Covers q) (fun x => x.key.type.code)
        s.watches r := by
  obtain ⟨free, hslots⟩ := h.slots
  obtain ⟨r, hr, hbest⟩ := hslots.itemFind q
  refine ⟨r, hr, ?_⟩
  rw [best_map_iff] at hbest
  simpa only [candidate_encode, encode_monitorType] using hbest

theorem firstActive_eq (hok : s.Ok) (key : Key) {r : Option ℕ}
    (hbest : Best (fun x : Watch => x.stopped = false ∧ x.key.Covers key.query)
      (fun x => x.key.type.code) s.watches r) :
    firstActive s.watches key =
      (r.bind (s.watches[·]?)).filter fun x => x.key.type.code = key.type.code := by
  rw [← hbest.find?_eq fun x hx hcand => code_le_of_covers (hok.valid x hx) hcand.2]
  unfold firstActive
  refine List.find?_congr fun x hx => ?_
  refine decide_eq_decide.2 ⟨?_, ?_⟩
  · rintro ⟨hstopped, hsame⟩
    have htype := type_eq_of_same hsame
    exact ⟨⟨hstopped, (covers_query_iff (hok.valid x hx) htype).2 hsame⟩, by rw [htype]⟩
  · rintro ⟨⟨hstopped, hcovers⟩, hcode⟩
    exact ⟨hstopped, (covers_query_iff (hok.valid x hx) (code_injective hcode)).1 hcovers⟩

theorem itemAddKey_eq (m : Monitor) (key : Key) (tv now : ℕ) :
    itemAddKey m key tv now =
      if key.Valid then itemAdd m key.type key.query tv now else some (0, m) := by
  cases key with
  | ip addr =>
    by_cases h : addr = 0 <;> simp [itemAddKey, itemAddIp, Key.Valid, Key.type, Key.query, h]
  | port num =>
    by_cases h : num = 0 <;> simp [itemAddKey, itemAddPort, Key.Valid, Key.type, Key.query, h]
  | ipPort addr num =>
    by_cases h : addr = 0 ∨ num = 0
    · have hnot : ¬ (Key.ipPort addr num).Valid := fun hvalid => h.elim hvalid.1 hvalid.2
      rw [if_neg hnot]
      exact if_pos h
    · have hvalid : (Key.ipPort addr num).Valid := not_or.1 h
      rw [if_pos hvalid]
      exact if_neg h
  | session srcIp dstIp srcPort dstPort =>
    by_cases h : srcIp = 0 ∨ srcPort = 0 ∨ dstIp = 0 ∨ dstPort = 0
    · have hnot : ¬ (Key.session srcIp dstIp srcPort dstPort).Valid := by
        rintro ⟨hsrcIp, hdstIp, hsrcPort, hdstPort⟩
        tauto
      rw [if_neg hnot]
      exact if_pos h
    · have hvalid : (Key.session srcIp dstIp srcPort dstPort).Valid := by
        simp only [Key.Valid]
        tauto
      rw [if_pos hvalid]
      exact if_neg h

/-- The identifiers do not wrap while fewer than `2 ^ 63` are handed out. -/
theorem allocId_eq {nextId : ℕ} (h : nextId < idInitValue + 2 ^ 63) :
    allocId nextId = nextId + 1 := by
  have hinit : idInitValue = 12345 := rfl
  rw [allocId, Word.add_of_lt (by omega)]
  exact Nat.mod_eq_of_lt (by omega)

theorem Represents.addNew (h : Represents m s) (hid : s.nextId < idInitValue + 2 ^ 63) (key : Key)
    (tv now : ℕ) :
    ∃ m', itemAddNew m key.type key.query tv now = some ((s.addNew key tv now).1, m') ∧
      Represents m' (s.addNew key tv now).2 := by
  obtain ⟨free, hslots⟩ := h.slots
  have hnumber := hslots.itemNumber
  rw [List.length_map, h.capacity] at hnumber
  unfold Store.addNew
  cases free with
  | nil =>
    have hfull : ¬ s.watches.length < s.capacity := by
      rw [hnumber, List.length_nil]
      omega
    rw [if_neg hfull]
    exact ⟨m, by simp [itemAddNew, hslots.allocItem], h⟩
  | cons x free =>
    have hroom : s.watches.length < s.capacity := by
      rw [hnumber, List.length_cons]
      omega
    rw [if_pos hroom]
    have hwrite := ({ m with nextId := allocId m.nextId } : Monitor).write_middle hslots.items
      (Watch.encode ⟨s.nextId, key, tv, now / 1000, false⟩)
    rw [List.length_map] at hwrite
    refine ⟨{ m with
        nextId := allocId m.nextId
        items := s.watches.map Watch.encode ++
          Watch.encode ⟨s.nextId, key, tv, now / 1000, false⟩ :: free },
      ?_, ⟨⟨free, ?_, fun y hy => hslots.free y (List.mem_cons_of_mem x hy)⟩, ?_, h.capacity, ?_⟩⟩
    · rw [itemAddNew, hslots.allocItem, ← h.nextId]
      rw [← h.nextId] at hwrite
      simp only [reduceCtorEq, if_false, List.length_map]
      exact congrArg (Option.map fun m' => (m.nextId, m')) hwrite
    · simp
    · have hitemNumber := hslots.itemNumber
      simp only [List.length_append, List.length_cons] at hitemNumber ⊢
      exact hitemNumber.symm
    · exact (congrArg allocId h.nextId).trans (allocId_eq hid)

/-- `_item_add` finds the first active watch with the key, or makes a new one. -/
theorem Represents.itemAdd_eq (h : Represents m s) (hok : s.Ok) (key : Key) (tv now : ℕ) :
    itemAdd m key.type key.query tv now =
      match firstActive s.watches key with
      | some x => some (x.id, m)
      | none => itemAddNew m key.type key.query tv now := by
  obtain ⟨r, hfind, hbest⟩ := h.itemFind key.query
  rw [firstActive_eq hok key hbest]
  unfold itemAdd
  rw [hfind]
  cases r with
  | none => rfl
  | some k =>
    obtain ⟨⟨x, hx, -, -⟩⟩ := hbest
    have hread : m.items[k]? = some x.encode := by
      obtain ⟨free, hitems, -⟩ := h.items
      obtain ⟨hk, -⟩ := List.getElem?_eq_some_iff.1 hx
      rw [hitems, List.getElem?_append_left (by simpa using hk), List.getElem?_map, hx]
      rfl
    simp only [hread, Option.bind_some, hx]
    by_cases htype : x.key.type = key.type
    · have hitem : x.encode.monitorType = key.type := htype
      rw [if_pos hitem, Option.filter_some_pos (by simp [htype])]
      rfl
    · have hitem : ¬ x.encode.monitorType = key.type := htype
      have hcode : ¬ x.key.type.code = key.type.code := fun heq => htype (code_injective heq)
      rw [if_neg hitem, Option.filter_some_neg (by simpa using hcode)]

theorem Represents.add (h : Represents m s) (hok : s.Ok) (hid : s.nextId < idInitValue + 2 ^ 63)
    (key : Key) (tv now : ℕ) :
    ∃ m', itemAddKey m key tv now = some ((s.add key tv now).1, m') ∧
      Represents m' (s.add key tv now).2 := by
  rw [itemAddKey_eq, Store.add]
  split
  · rw [h.itemAdd_eq hok]
    cases firstActive s.watches key with
    | some x => exact ⟨m, rfl, h⟩
    | none => exact h.addNew hid key tv now
  · exact ⟨m, rfl, h⟩

theorem Represents.findById (h : Represents m s) (hok : s.Ok) (id : ℕ) :
    (itemFindById m id = some none ∧ ∀ x ∈ s.watches, x.id ≠ id) ∨
      ∃ before x after, s.watches = before ++ x :: after ∧ x.id = id ∧
        itemFindById m id = some (some before.length) ∧
        ∀ y ∈ before ++ after, y.id ≠ id := by
  obtain ⟨free, hslots⟩ := h.slots
  rw [hslots.itemFindById, List.findIdx?_map]
  cases hfind : s.watches.findIdx? ((fun x : MonitorItem => decide (x.id = id)) ∘ Watch.encode) with
  | none =>
    refine .inl ⟨rfl, fun x hx => ?_⟩
    exact of_decide_eq_false (List.findIdx?_eq_none_iff.1 hfind x hx)
  | some k =>
    obtain ⟨hk, hat, -⟩ := List.findIdx?_eq_some_iff_getElem.1 hfind
    have hid : s.watches[k].id = id := of_decide_eq_true hat
    have hsplit : s.watches = s.watches.take k ++ s.watches[k] :: s.watches.drop (k + 1) := by simp
    refine .inr ⟨s.watches.take k, s.watches[k], s.watches.drop (k + 1), hsplit, hid, ?_, ?_⟩
    · rw [List.length_take_of_le hk.le]
    · have hnodup :
          ((s.watches.take k ++ s.watches[k] :: s.watches.drop (k + 1)).map (·.id)).Nodup := by
        rw [← hsplit]
        exact hok.sorted.imp fun hlt => hlt.ne
      have hperm : ((s.watches.take k ++ s.watches[k] :: s.watches.drop (k + 1)).map (·.id)).Perm
          (s.watches[k].id :: (s.watches.take k ++ s.watches.drop (k + 1)).map (·.id)) :=
        List.perm_middle.map fun x : Watch => x.id
      intro y hy heq
      obtain ⟨hfresh, -⟩ := List.nodup_cons.1 (hperm.nodup_iff.1 hnodup)
      exact hfresh (hid.trans heq.symm ▸ List.mem_map_of_mem hy)

theorem Represents.del (h : Represents m s) (hok : s.Ok) (id : ℕ) :
    ∃ m', itemDel m id = some m' ∧ Represents m' (s.del id) ∧
      ((∀ x ∈ s.watches, x.id ≠ id) → m' = m) := by
  rcases h.findById hok id with ⟨hfind, hnone⟩ | ⟨before, x, after, hsplit, hid, hfind, hothers⟩
  · have hsame : s.del id = s := by
      rw [Store.del, List.filter_eq_self.2]
      simpa using hnone
    exact ⟨m, by rw [itemDel, hfind], by rwa [hsame], fun _ => rfl⟩
  · obtain ⟨free, hslots⟩ := h.slots
    rw [hsplit, List.map_append, List.map_cons] at hslots
    obtain ⟨last, hmove, hlast⟩ := elementsMove_eq hslots
    rw [List.length_map] at hmove
    have hfilter : (s.del id).watches = before ++ after := by
      have hkeep : ∀ l : List Watch, (∀ y ∈ l, y.id ≠ id) → (l.filter fun y => y.id ≠ id) = l :=
        fun l hl => List.filter_eq_self.2 (by simpa using hl)
      simp only [Store.del, hsplit, List.filter_append]
      rw [List.filter_cons_of_neg (by simpa using hid),
        hkeep before fun y hy => hothers y (List.mem_append_left _ hy),
        hkeep after fun y hy => hothers y (List.mem_append_right _ hy)]
    refine ⟨{ m with items := before.map Watch.encode ++ after.map Watch.encode ++ last :: free },
      by rw [itemDel, hfind]; exact hmove, ⟨⟨last :: free, ?_, ?_⟩, ?_, h.capacity, h.nextId⟩, ?_⟩
    · rw [hfilter, List.map_append]
    · exact List.forall_mem_cons.2 ⟨hlast, hslots.free⟩
    · have hnumber := hslots.itemNumber
      simp only [List.length_append, List.length_cons] at hnumber ⊢
      omega
    · intro hnone
      exact absurd hid (hnone x (hsplit ▸ List.mem_append_right _ List.mem_cons_self))

theorem Represents.setStopped (h : Represents m s) (hok : s.Ok) (id : ℕ) (stopped : Bool) :
    ∃ m', itemSetState m id (if stopped then .stop else .start) = some m' ∧
      Represents m' (s.setStopped id stopped) ∧ ((∀ x ∈ s.watches, x.id ≠ id) → m' = m) := by
  have hkeep : ∀ l : List Watch, (∀ y ∈ l, y.id ≠ id) →
      (l.map fun y => if y.id = id then { y with stopped := stopped } else y) = l := by
    intro l hl
    refine (List.map_congr_left fun y hy => ?_).trans (List.map_id l)
    rw [if_neg (hl y hy)]
    rfl
  rcases h.findById hok id with ⟨hfind, hnone⟩ | ⟨before, x, after, hsplit, hid, hfind, hothers⟩
  · have hsame : s.setStopped id stopped = s := by
      rw [Store.setStopped, hkeep _ hnone]
    exact ⟨m, by rw [itemSetState, hfind], by rwa [hsame], fun _ => rfl⟩
  · obtain ⟨free, hslots⟩ := h.slots
    rw [hsplit, List.map_append, List.map_cons] at hslots
    have hitems : m.items =
        before.map Watch.encode ++ x.encode :: (after.map Watch.encode ++ free) := by
      rw [hslots.items, List.append_assoc, List.cons_append]
    have hread : m.items[before.length]? = some x.encode := by
      rw [hitems, ← List.length_map Watch.encode]
      exact getElem?_middle _ _ _
    have hwrite := m.write_middle hitems (Watch.encode { x with stopped := stopped })
    rw [List.length_map] at hwrite
    have hnumber := hslots.itemNumber
    have hmap : (s.setStopped id stopped).watches =
        before ++ { x with stopped := stopped } :: after := by
      simp only [Store.setStopped, hsplit, List.map_append, List.map_cons, hid, if_true]
      rw [hkeep before fun y hy => hothers y (List.mem_append_left _ hy),
        hkeep after fun y hy => hothers y (List.mem_append_right _ hy)]
    refine ⟨{ m with
        items := before.map Watch.encode ++
          Watch.encode { x with stopped := stopped } :: (after.map Watch.encode ++ free) },
      ?_, ⟨⟨free, ?_, hslots.free⟩, ?_, h.capacity, h.nextId⟩, ?_⟩
    · rw [itemSetState, hfind]
      simp only [hread]
      exact hwrite
    · rw [hmap]
      simp
    · simp only [List.length_append, List.length_cons] at hnumber ⊢
      omega
    · intro hnone
      exact absurd hid (hnone x (hsplit ▸ List.mem_append_right _ List.mem_cons_self))

theorem Store.ok_empty (capacity : ℕ) : (Store.empty capacity).Ok :=
  ⟨List.forall_mem_nil _, List.Pairwise.nil, List.forall_mem_nil _⟩

theorem represents_empty (itemNumber : ℕ) :
    Represents (monitorLoad itemNumber) (.empty itemNumber) where
  items := by
    refine ⟨(monitorLoad itemNumber).items, rfl, fun x hx => ?_⟩
    rw [List.eq_of_mem_replicate hx]
    rfl
  size := List.length_replicate
  capacity := rfl
  nextId := rfl

theorem Store.Ok.setStopped (h : s.Ok) (id : ℕ) (stopped : Bool) :
    (s.setStopped id stopped).Ok := by
  have hids : (s.setStopped id stopped).watches.map (·.id) = s.watches.map (·.id) := by
    rw [Store.setStopped, List.map_map]
    refine List.map_congr_left fun x _ => ?_
    simp only [Function.comp_apply]
    split <;> rfl
  refine ⟨?_, hids ▸ h.sorted, ?_⟩
  · intro x hx
    obtain ⟨y, hy, rfl⟩ := List.mem_map.1 hx
    split
    · exact h.valid y hy
    · exact h.valid y hy
  · intro x hx
    obtain ⟨y, hy, rfl⟩ := List.mem_map.1 hx
    split
    · exact h.below y hy
    · exact h.below y hy

theorem Store.Ok.step (h : s.Ok) (op : MonitorOp) :
    (s.step op).2.Ok ∧ (s.step op).2.nextId ≤ s.nextId + if op.isAdd then 1 else 0 := by
  cases op with
  | add key period now =>
    simp only [Store.step, Store.add, MonitorOp.isAdd, if_true]
    split
    · rename_i hvalid
      split
      · exact ⟨h, Nat.le_succ _⟩
      unfold Store.addNew
      split
      · refine ⟨⟨?_, ?_, ?_⟩, le_rfl⟩
        · rw [List.forall_mem_append]
          exact ⟨h.valid, by simpa using hvalid⟩
        · rw [List.map_append, List.pairwise_append]
          refine ⟨h.sorted, List.pairwise_singleton _ _, ?_⟩
          intro i hi j hj
          obtain ⟨x, hx, rfl⟩ := List.mem_map.1 hi
          rw [List.mem_singleton.1 hj]
          exact h.below x hx
        · rw [List.forall_mem_append]
          exact ⟨fun x hx => (h.below x hx).trans (Nat.lt_succ_self _), by simp⟩
      · exact ⟨h, Nat.le_succ _⟩
    · exact ⟨h, Nat.le_succ _⟩
  | del id =>
    refine ⟨⟨fun x hx => h.valid x (List.mem_of_mem_filter hx), ?_,
      fun x hx => h.below x (List.mem_of_mem_filter hx)⟩, le_rfl⟩
    exact h.sorted.sublist (List.filter_sublist.map _)
  | stop id => exact ⟨h.setStopped id true, le_rfl⟩
  | restart id => exact ⟨h.setStopped id false, le_rfl⟩

theorem Represents.step (h : Represents m s) (hok : s.Ok) (hid : s.nextId < idInitValue + 2 ^ 63)
    (op : MonitorOp) :
    ∃ m', m.step op = some ((s.step op).1, m') ∧ Represents m' (s.step op).2 := by
  cases op with
  | add key period now =>
    obtain ⟨m', hadd, hrep⟩ := h.add hok hid key period now
    exact ⟨m', by rw [Monitor.step, hadd]; rfl, hrep⟩
  | del id =>
    obtain ⟨m', hdel, hrep, -⟩ := h.del hok id
    exact ⟨m', by rw [Monitor.step, hdel]; rfl, hrep⟩
  | stop id =>
    obtain ⟨m', hstop, hrep, -⟩ := h.setStopped hok id true
    exact ⟨m', congrArg (Option.map fun m => (none, m)) hstop, hrep⟩
  | restart id =>
    obtain ⟨m', hrestart, hrep, -⟩ := h.setStopped hok id false
    exact ⟨m', congrArg (Option.map fun m => (none, m)) hrestart, hrep⟩

theorem Represents.run (h : Represents m s) (hok : s.Ok) (ops : List MonitorOp)
    (hadds : s.nextId + (ops.filter MonitorOp.isAdd).length < idInitValue + 2 ^ 63) :
    ∃ m', m.run ops = some ((s.run ops).1, m') ∧ Represents m' (s.run ops).2 ∧
      (s.run ops).2.Ok := by
  induction ops generalizing m s with
  | nil => exact ⟨m, rfl, h, hok⟩
  | cons op ops ih =>
    obtain ⟨m₁, hstep, hrep⟩ := h.step hok (by omega) op
    obtain ⟨hok₁, hnext⟩ := hok.step op
    have hadds₁ : (s.step op).2.nextId + (ops.filter MonitorOp.isAdd).length <
        idInitValue + 2 ^ 63 := by
      rw [List.filter_cons] at hadds
      split at hadds
      · rename_i hadd
        rw [if_pos hadd] at hnext
        rw [List.length_cons] at hadds
        omega
      · rename_i hadd
        rw [if_neg hadd] at hnext
        omega
    obtain ⟨m', hrun, hrep', hok'⟩ := ih hrep hok₁ hadds₁
    refine ⟨m', ?_, hrep', hok'⟩
    simp only [Monitor.run, hstep, hrun, Option.map_some]
    rfl

/-- What holds between a table and its store after every run. -/
structure MonitorOk (m : Monitor) (s : Store) : Prop where
  represents : Represents m s
  distinct : (s.watches.map (·.id)).Nodup
  found : ∀ q, ∃ r, itemFind m q = some r ∧
    Best (fun x : Watch => x.stopped = false ∧ x.key.Covers q) (fun x =>
      x.key.type.code) s.watches r
  unknown : ∀ id, (∀ x ∈ s.watches, x.id ≠ id) →
    itemDel m id = some m ∧ itemStop m id = some m ∧ itemRestart m id = some m
  again : ∀ x ∈ s.watches, x.stopped = false → ∃ y, firstActive s.watches x.key = some y ∧
    ∀ tv now, itemAddKey m x.key tv now = some (y.id, m)

theorem Represents.unknown (h : Represents m s) (hok : s.Ok) {id : ℕ}
    (hunknown : ∀ x ∈ s.watches, x.id ≠ id) :
    itemDel m id = some m ∧ itemStop m id = some m ∧ itemRestart m id = some m := by
  obtain ⟨m₁, hdel, -, hsame₁⟩ := h.del hok id
  obtain ⟨m₂, hstop, -, hsame₂⟩ := h.setStopped hok id true
  obtain ⟨m₃, hrestart, -, hsame₃⟩ := h.setStopped hok id false
  rw [hsame₁ hunknown] at hdel
  rw [hsame₂ hunknown] at hstop
  rw [hsame₃ hunknown] at hrestart
  exact ⟨hdel, hstop, hrestart⟩

theorem Represents.again (h : Represents m s) (hok : s.Ok) {x : Watch} (hx : x ∈ s.watches)
    (hactive : x.stopped = false) :
    ∃ y, firstActive s.watches x.key = some y ∧
      ∀ tv now, itemAddKey m x.key tv now = some (y.id, m) := by
  have hsome : (firstActive s.watches x.key).isSome := by
    refine List.find?_isSome.2 ⟨x, hx, ?_⟩
    exact decide_eq_true ⟨hactive, .inl rfl⟩
  obtain ⟨y, hy⟩ := Option.isSome_iff_exists.1 hsome
  refine ⟨y, hy, fun tv now => ?_⟩
  rw [itemAddKey_eq, if_pos (hok.valid x hx), h.itemAdd_eq hok, hy]

/-- Every run on a new table is the run of the store. -/
theorem monitor_refines (itemNumber : ℕ) (ops : List MonitorOp)
    (hadds : (ops.filter MonitorOp.isAdd).length < 2 ^ 63) :
    ∃ m, (monitorLoad itemNumber).run ops = some (((Store.empty itemNumber).run ops).1, m) ∧
      MonitorOk m ((Store.empty itemNumber).run ops).2 := by
  obtain ⟨m, hrun, hrep, hok⟩ :=
    (represents_empty itemNumber).run (Store.ok_empty itemNumber) ops (Nat.add_lt_add_left hadds _)
  exact ⟨m, hrun,
    { represents := hrep
      distinct := hok.sorted.imp fun hlt => hlt.ne
      found := hrep.itemFind
      unknown := fun _ hunknown => hrep.unknown hok hunknown
      again := fun _ hx hactive => hrep.again hok hx hactive }⟩

theorem monitor_refines_two :
    ([MonitorOp.add (.ip 1) 5 0, .add (.port 80) 5 0].filter MonitorOp.isAdd).length < 2 ^ 63 ∧
      ∃ m, (monitorLoad 1).run [.add (.ip 1) 5 0, .add (.port 80) 5 0] =
        some ([some 12345, some 1], m) ∧
        MonitorOk m ⟨1, 12346, [⟨12345, .ip 1, 5, 0, false⟩]⟩ :=
  ⟨by decide, monitor_refines 1 [.add (.ip 1) 5 0, .add (.port 80) 5 0] (by decide)⟩

/-- Adding the key of an item that is not stopped returns this item and changes nothing. -/
def AddsAgain (m : Monitor) : Prop :=
  ∀ x ∈ m.items, x.monitorState ≠ .init → x.monitorState ≠ .stop → ∀ tv now,
    itemAdd m x.monitorType ⟨x.srcIp, x.dstIp, x.srcPort, x.dstPort⟩ tv now = some (x.id, m)

def addedTwice : List MonitorOp := [.add (.ip 1) 5 0, .stop 12345, .add (.ip 1) 5 0, .restart 12345]

theorem addedTwice_not_again :
    ¬ ∀ itemNumber ops, (ops.filter MonitorOp.isAdd).length < 2 ^ 63 →
      ∃ m rs, (monitorLoad itemNumber).run ops = some (rs, m) ∧ AddsAgain m := by
  intro hclaim
  obtain ⟨m, rs, hrun, hagain⟩ := hclaim 2 addedTwice (by decide)
  have hm : (monitorLoad 2).run addedTwice = some ([some 12345, none, some 12346, none],
      ⟨2, 12347,
        [Watch.encode ⟨12345, .ip 1, 5, 0, false⟩, Watch.encode ⟨12346, .ip 1, 5, 0, false⟩]⟩) := by
    decide
  obtain ⟨-, rfl⟩ := Prod.mk.inj (Option.some.inj (hm.symm.trans hrun))
  have hsecond := hagain (Watch.encode ⟨12346, .ip 1, 5, 0, false⟩) (by simp) (by decide)
      (by decide) 0 0
  have hfirst : itemAdd ⟨2, 12347, [Watch.encode ⟨12345, .ip 1, 5, 0, false⟩,
      Watch.encode ⟨12346, .ip 1, 5, 0, false⟩]⟩ .ip ⟨0, 1, 0, 0⟩ 0 0 = some (12345,
      ⟨2, 12347, [Watch.encode ⟨12345, .ip 1, 5, 0, false⟩,
        Watch.encode ⟨12346, .ip 1, 5, 0, false⟩]⟩) := by decide
  have heq := hfirst.symm.trans hsecond
  cases heq

end CloudHands.SessionMonitor
