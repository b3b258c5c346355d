import CloudHands.SessionMonitor.Store

/-!
# The scans of the table

Every loop of the session monitor ends at the first free slot. What each of them does is stated
for a table whose slots in use, `live`, come before the free ones.
-/

namespace CloudHands.SessionMonitor

open Lib

/-- The table is `live` and then free slots. -/
structure Slots (m : Monitor) (live free : List MonitorItem) : Prop where
  items : m.items = live ++ free
  size : m.items.length = m.itemNumber
  live : ∀ x ∈ live, x.monitorState ≠ .init
  free : ∀ x ∈ free, x.monitorState = .init

variable {m : Monitor} {live free : List MonitorItem}

theorem Slots.itemNumber (h : Slots m live free) : m.itemNumber = live.length + free.length := by
  rw [← h.size, h.items, List.length_append]

theorem getElem?_middle {α : Type*} (xs : List α) (x : α) (ys : List α) :
    (xs ++ x :: ys)[xs.length]? = some x := by simp

theorem betterItem_best {cur : ℕ} {seen rest : List MonitorItem} {curItem : MonitorItem}
    {p : MonitorItem → Prop} {item : Option ℕ} (hitems : m.items = seen ++ rest)
    (hcur : seen.length = cur) (hp : p curItem)
    (hbest : Best p (fun x => x.monitorType.code) seen item) :
    ∃ r, betterItem m cur curItem item = some r ∧
      Best p (fun x => x.monitorType.code) (seen ++ [curItem]) r := by
  subst hcur
  cases item with
  | none => exact ⟨_, rfl, hbest.first hp⟩
  | some k =>
    have hbest' := hbest
    obtain ⟨⟨x, hx, -, -⟩⟩ := hbest'
    have hread : m.items[k]? = some x := by
      obtain ⟨hk, -⟩ := List.getElem?_eq_some_iff.1 hx
      rw [hitems, List.getElem?_append_left hk]
      exact hx
    simp only [betterItem, hread]
    split
    · rename_i hrank
      exact ⟨_, rfl, hbest.higher hx hp hrank⟩
    · rename_i hrank
      exact ⟨_, rfl, hbest.keep hx hrank⟩

/-- What `ch_session_monitor_item_find` looks for. -/
def Candidate (q : FourTuple) (x : MonitorItem) : Prop :=
  x.monitorState ≠ .stop ∧ isMatch x q = true

theorem itemFindFrom_best {q : FourTuple} (hfree : ∀ x ∈ free, x.monitorState = .init)
    (rest : List MonitorItem) {seen : List MonitorItem} {item : Option ℕ}
    (hitems : m.items = seen ++ (rest ++ free)) (hrest : ∀ x ∈ rest, x.monitorState ≠ .init)
    (hbest : Best (Candidate q) (fun x => x.monitorType.code) seen item) :
    ∃ r, itemFindFrom m q (rest.length + free.length) seen.length item = some r ∧
      Best (Candidate q) (fun x => x.monitorType.code) (seen ++ rest) r := by
  induction rest generalizing seen item with
  | nil =>
    refine ⟨item, ?_, by simpa using hbest⟩
    cases free with
    | nil => rfl
    | cons x free =>
      have hinit := hfree x List.mem_cons_self
      have hread : m.items[seen.length]? = some x := by
        rw [hitems]
        exact getElem?_middle seen x free
      simp [itemFindFrom, hread, hinit]
  | cons x rest ih =>
    obtain ⟨hx, hrest⟩ := List.forall_mem_cons.1 hrest
    have hread : m.items[seen.length]? = some x := by
      rw [hitems]
      exact getElem?_middle seen x (rest ++ free)
    have hitems' : m.items = (seen ++ [x]) ++ (rest ++ free) := by rw [hitems]; simp
    have hnext : ∀ item', Best (Candidate q) (fun x => x.monitorType.code) (seen ++ [x]) item' →
        ∃ r, itemFindFrom m q (rest.length + free.length) (seen.length + 1) item' = some r ∧
          Best (Candidate q) (fun x => x.monitorType.code) (seen ++ x :: rest) r := by
      intro item' hbest'
      obtain ⟨r, hr, hbest''⟩ := ih hitems' hrest hbest'
      exact ⟨r, by simpa using hr, by simpa using hbest''⟩
    have hleft : (x :: rest).length + free.length = rest.length + free.length + 1 := by
      simp only [List.length_cons]
      omega
    rw [hleft]
    simp only [itemFindFrom, hread, hx, if_false]
    split
    · rename_i hstop
      exact hnext item (hbest.skip fun hcand => hcand.1 hstop)
    split
    · rename_i hmatch
      refine hnext item (hbest.skip fun hcand => ?_)
      rw [hcand.2] at hmatch
      cases hmatch
    · rename_i hstop hmatch
      obtain ⟨item', hbetter, hbest'⟩ :=
        betterItem_best hitems rfl (p := Candidate q) ⟨hstop, by simpa using hmatch⟩ hbest
      obtain ⟨r, hr, hbest''⟩ := hnext item' hbest'
      exact ⟨r, by rw [hbetter]; exact hr, hbest''⟩

theorem Slots.itemFind (h : Slots m live free) (q : FourTuple) :
    ∃ r, itemFind m q = some r ∧ Best (Candidate q) (fun x => x.monitorType.code) live r := by
  rw [SessionMonitor.itemFind, h.itemNumber]
  exact itemFindFrom_best h.free live h.items h.live best_nil

theorem itemFindByIdFrom_eq (id : ℕ) (hfree : ∀ x ∈ free, x.monitorState = .init)
    (rest : List MonitorItem) {seen : List MonitorItem} (hitems : m.items = seen ++ (rest ++ free))
    (hrest : ∀ x ∈ rest, x.monitorState ≠ .init) :
    itemFindByIdFrom m id (rest.length + free.length) seen.length =
      some ((rest.findIdx? fun x => x.id = id).map (seen.length + ·)) := by
  induction rest generalizing seen with
  | nil =>
    cases free with
    | nil => rfl
    | cons x free =>
      have hinit := hfree x List.mem_cons_self
      have hread : m.items[seen.length]? = some x := by
        rw [hitems]
        exact getElem?_middle seen x free
      simp [itemFindByIdFrom, hread, hinit]
  | cons x rest ih =>
    obtain ⟨hx, hrest⟩ := List.forall_mem_cons.1 hrest
    have hread : m.items[seen.length]? = some x := by
      rw [hitems]
      exact getElem?_middle seen x (rest ++ free)
    have hitems' : m.items = (seen ++ [x]) ++ (rest ++ free) := by rw [hitems]; simp
    have hleft : (x :: rest).length + free.length = rest.length + free.length + 1 := by
      simp only [List.length_cons]
      omega
    have hnext := ih hitems' hrest
    rw [List.length_append, List.length_singleton] at hnext
    rw [hleft, List.findIdx?_cons]
    simp only [itemFindByIdFrom, hread, hx, if_false, hnext]
    by_cases hid : x.id = id
    · simp [hid]
    · simp only [hid, if_false, decide_false, Bool.false_eq_true, Option.map_map]
      congr 2
      funext k
      simp only [Function.comp_apply]
      omega

theorem Slots.itemFindById (h : Slots m live free) (id : ℕ) :
    itemFindById m id = some (live.findIdx? fun x => x.id = id) := by
  rw [SessionMonitor.itemFindById, h.itemNumber]
  simpa using @itemFindByIdFrom_eq _ _ id h.free live [] h.items h.live

theorem allocItemFrom_eq (hfree : ∀ x ∈ free, x.monitorState = .init) (rest : List MonitorItem)
    {seen : List MonitorItem} (hitems : m.items = seen ++ (rest ++ free))
    (hrest : ∀ x ∈ rest, x.monitorState ≠ .init) :
    allocItemFrom m (rest.length + free.length) seen.length =
      some (if free = [] then none else some (seen.length + rest.length)) := by
  induction rest generalizing seen with
  | nil =>
    cases free with
    | nil => rfl
    | cons x free =>
      have hinit := hfree x List.mem_cons_self
      have hread : m.items[seen.length]? = some x := by
        rw [hitems]
        exact getElem?_middle seen x free
      simp [allocItemFrom, hread, hinit]
  | cons x rest ih =>
    obtain ⟨hx, hrest⟩ := List.forall_mem_cons.1 hrest
    have hread : m.items[seen.length]? = some x := by
      rw [hitems]
      exact getElem?_middle seen x (rest ++ free)
    have hitems' : m.items = (seen ++ [x]) ++ (rest ++ free) := by rw [hitems]; simp
    have hleft : (x :: rest).length + free.length = rest.length + free.length + 1 := by
      simp only [List.length_cons]
      omega
    have hnext := ih hitems' hrest
    rw [List.length_append, List.length_singleton] at hnext
    rw [hleft]
    simp only [allocItemFrom, hread, hx, if_false, hnext, List.length_cons]
    have hindex : seen.length + 1 + rest.length = seen.length + (rest.length + 1) := by omega
    rw [hindex]

theorem Slots.allocItem (h : Slots m live free) :
    allocItem m = some (if free = [] then none else some live.length) := by
  rw [SessionMonitor.allocItem, h.itemNumber]
  simpa using @allocItemFrom_eq _ _ h.free live [] h.items h.live

theorem Monitor.write_middle (m : Monitor) {xs ys : List MonitorItem} {x : MonitorItem}
    (hitems : m.items = xs ++ x :: ys) (y : MonitorItem) :
    m.write xs.length y = some { m with items := xs ++ y :: ys } := by
  have hlt : xs.length < m.items.length := by
    rw [hitems, List.length_append, List.length_cons]
    omega
  rw [Monitor.write, if_pos hlt, hitems, List.set_append_right _ _ le_rfl]
  simp

/-- The slot `gap` and those after it are moved down by one; the last of them is left twice. -/
theorem elementsMoveFrom_eq (hfree : ∀ x ∈ free, x.monitorState = .init)
    (rest : List MonitorItem) {m : Monitor} {seen : List MonitorItem} {gap : MonitorItem}
    (hitems : m.items = seen ++ gap :: (rest ++ free))
    (hrest : ∀ x ∈ rest, x.monitorState ≠ .init) :
    ∃ last, elementsMoveFrom (rest.length + free.length) (seen.length + 1) m =
      some ({ m with items := seen ++ rest ++ last :: free }, seen.length + rest.length + 1) := by
  induction rest generalizing m seen gap with
  | nil =>
    have hm : { m with items := seen ++ [] ++ gap :: free } = m := by
      rw [List.append_nil]
      rw [List.nil_append] at hitems
      rw [← hitems]
    refine ⟨gap, ?_⟩
    rw [hm]
    cases free with
    | nil => rfl
    | cons x free =>
      have hinit := hfree x List.mem_cons_self
      have hread : m.items[seen.length + 1]? = some x := by
        rw [hitems]
        simp
      simp [elementsMoveFrom, hread, hinit]
  | cons x rest ih =>
    obtain ⟨hx, hrest⟩ := List.forall_mem_cons.1 hrest
    have hread : m.items[seen.length + 1]? = some x := by
      rw [hitems]
      simp
    have hwrite := m.write_middle hitems x
    have hitems' : ({ m with items := seen ++ x :: (x :: rest ++ free) } : Monitor).items =
        (seen ++ [x]) ++ x :: (rest ++ free) := by simp
    obtain ⟨last, hnext⟩ := ih hitems' hrest
    have hleft : (x :: rest).length + free.length = rest.length + free.length + 1 := by
      simp only [List.length_cons]
      omega
    refine ⟨last, ?_⟩
    rw [hleft]
    simp only [elementsMoveFrom, hread, hx, if_false, Nat.add_sub_cancel, hwrite, Option.bind_some]
    rw [List.length_append, List.length_singleton] at hnext
    rw [hnext]
    simp only [List.append_assoc, List.cons_append, List.length_cons]
    congr 2
    omega

/-- `elements_move` takes the item out of the slots in use. -/
theorem elementsMove_eq {m : Monitor} {before after : List MonitorItem} {x : MonitorItem}
    (h : Slots m (before ++ x :: after) free) :
    ∃ last, elementsMove m before.length =
        some { m with items := before ++ after ++ last :: free } ∧
      last.monitorState = .init := by
  have hitems : m.items = before ++ x :: (after ++ free) := by
    rw [h.items, List.append_assoc, List.cons_append]
  have hafter : ∀ y ∈ after, y.monitorState ≠ .init :=
    fun y hy => h.live y (List.mem_append_right _ (List.mem_cons_of_mem _ hy))
  obtain ⟨last, hmove⟩ := elementsMoveFrom_eq h.free after hitems hafter
  have hleft : m.itemNumber - (before.length + 1) = after.length + free.length := by
    have hnumber := h.itemNumber
    rw [List.length_append, List.length_cons] at hnumber
    omega
  have hlast : (before ++ after ++ last :: free)[before.length + after.length]? = some last := by
    rw [← List.length_append]
    exact getElem?_middle _ _ _
  have hwrite := ({ m with items := before ++ after ++ last :: free } : Monitor).write_middle rfl
    (itemInit last)
  refine ⟨itemInit last, ?_, rfl⟩
  rw [elementsMove, hleft, hmove]
  simp only [Nat.add_sub_cancel, hlast]
  rw [List.length_append] at hwrite
  exact hwrite

end CloudHands.SessionMonitor
