import CloudHands.Lib.FirstMax
import CloudHands.SessionMonitor.Monitor

/-!
# What the session monitor stands for

A list of what is to be watched, in the order in which it was added. A watch has a key, which
says what it applies to, and can be stopped and restarted. There is no table, no order of types
and no field that is left zero.
-/

namespace CloudHands.SessionMonitor

open Lib

inductive Key
  | ip (addr : ℕ)
  | port (num : ℕ)
  | ipPort (addr num : ℕ)
  | session (srcIp dstIp srcPort dstPort : ℕ)
deriving DecidableEq, Repr

def Key.type : Key → ItemType
  | .ip _ => .ip
  | .port _ => .port
  | .ipPort _ _ => .ipPort
  | .session _ _ _ _ => .session

def Key.Valid : Key → Prop
  | .ip addr => addr ≠ 0
  | .port num => num ≠ 0
  | .ipPort addr num => addr ≠ 0 ∧ num ≠ 0
  | .session srcIp dstIp srcPort dstPort => srcIp ≠ 0 ∧ dstIp ≠ 0 ∧ srcPort ≠ 0 ∧ dstPort ≠ 0

instance : (key : Key) → Decidable key.Valid
  | .ip addr => inferInstanceAs (Decidable (addr ≠ 0))
  | .port num => inferInstanceAs (Decidable (num ≠ 0))
  | .ipPort addr num => inferInstanceAs (Decidable (addr ≠ 0 ∧ num ≠ 0))
  | .session srcIp dstIp srcPort dstPort =>
    inferInstanceAs (Decidable (srcIp ≠ 0 ∧ dstIp ≠ 0 ∧ srcPort ≠ 0 ∧ dstPort ≠ 0))

def FourTuple.reverse (q : FourTuple) : FourTuple := ⟨q.dstIp, q.srcIp, q.dstPort, q.srcPort⟩

def Key.Covers : Key → FourTuple → Prop
  | .ip addr, q => addr = q.srcIp ∨ addr = q.dstIp
  | .port num, q => num = q.srcPort ∨ num = q.dstPort
  | .ipPort addr num, q => (addr = q.srcIp ∧ num = q.srcPort) ∨ (addr = q.dstIp ∧ num = q.dstPort)
  | .session srcIp dstIp srcPort dstPort, q =>
    (⟨srcIp, dstIp, srcPort, dstPort⟩ : FourTuple) = q ∨
      (⟨srcIp, dstIp, srcPort, dstPort⟩ : FourTuple) = q.reverse

instance : (key : Key) → (q : FourTuple) → Decidable (key.Covers q)
  | .ip addr, q => inferInstanceAs (Decidable (addr = q.srcIp ∨ addr = q.dstIp))
  | .port num, q => inferInstanceAs (Decidable (num = q.srcPort ∨ num = q.dstPort))
  | .ipPort addr num, q =>
    inferInstanceAs (Decidable ((addr = q.srcIp ∧ num = q.srcPort) ∨
      (addr = q.dstIp ∧ num = q.dstPort)))
  | .session srcIp dstIp srcPort dstPort, q =>
    inferInstanceAs (Decidable ((⟨srcIp, dstIp, srcPort, dstPort⟩ : FourTuple) = q ∨
      (⟨srcIp, dstIp, srcPort, dstPort⟩ : FourTuple) = q.reverse))

def Key.reverse : Key → Key
  | .session srcIp dstIp srcPort dstPort => .session dstIp srcIp dstPort srcPort
  | key => key

def Key.Same (key key' : Key) : Prop := key = key' ∨ key = key'.reverse

instance (key key' : Key) : Decidable (key.Same key') :=
  inferInstanceAs (Decidable (key = key' ∨ key = key'.reverse))

structure Watch where
  id : ℕ
  key : Key
  period : ℕ
  startTime : ℕ
  stopped : Bool
deriving DecidableEq, Repr

/-- The watches, of which there can be `capacity`. -/
structure Store where
  capacity : ℕ
  nextId : ℕ
  watches : List Watch
deriving DecidableEq, Repr

def Store.empty (capacity : ℕ) : Store := ⟨capacity, idInitValue, []⟩

def firstActive (watches : List Watch) (key : Key) : Option Watch :=
  watches.find? fun x => x.stopped = false ∧ x.key.Same key

def Store.addNew (s : Store) (key : Key) (period now : ℕ) : ℕ × Store :=
  if s.watches.length < s.capacity then
    (s.nextId,
      { s with
        nextId := s.nextId + 1
        watches := s.watches ++ [⟨s.nextId, key, period, now / 1000, false⟩] })
  else (1, s)

def Store.add (s : Store) (key : Key) (period now : ℕ) : ℕ × Store :=
  if key.Valid then
    match firstActive s.watches key with
    | some x => (x.id, s)
    | none => s.addNew key period now
  else (0, s)

def Store.del (s : Store) (id : ℕ) : Store :=
  { s with watches := s.watches.filter fun x => x.id ≠ id }

def Store.setStopped (s : Store) (id : ℕ) (stopped : Bool) : Store :=
  { s with
    watches := s.watches.map fun x => if x.id = id then { x with stopped := stopped } else x }

inductive MonitorOp
  | add (key : Key) (period now : ℕ)
  | del (id : ℕ)
  | stop (id : ℕ)
  | restart (id : ℕ)
deriving DecidableEq, Repr

def MonitorOp.isAdd : MonitorOp → Bool
  | .add _ _ _ => true
  | _ => false

def Store.step (s : Store) : MonitorOp → Option ℕ × Store
  | .add key period now => ((s.add key period now).1, (s.add key period now).2)
  | .del id => (none, s.del id)
  | .stop id => (none, s.setStopped id true)
  | .restart id => (none, s.setStopped id false)

def Store.run (s : Store) : List MonitorOp → List (Option ℕ) × Store
  | [] => ([], s)
  | op :: ops => ((s.step op).1 :: ((s.step op).2.run ops).1, ((s.step op).2.run ops).2)

def itemAddKey (m : Monitor) (key : Key) (tv now : ℕ) : Option (ℕ × Monitor) :=
  match key with
  | .ip ip => itemAddIp m ip tv now
  | .port port => itemAddPort m port tv now
  | .ipPort ip port => itemAddIpPort m ip port tv now
  | .session srcIp dstIp srcPort dstPort => itemAddSession m srcIp dstIp srcPort dstPort tv now

def Monitor.step (m : Monitor) : MonitorOp → Option (Option ℕ × Monitor)
  | .add key period now => (itemAddKey m key period now).map fun r => (some r.1, r.2)
  | .del id => (itemDel m id).map fun m => (none, m)
  | .stop id => (itemStop m id).map fun m => (none, m)
  | .restart id => (itemRestart m id).map fun m => (none, m)

def Monitor.run (m : Monitor) : List MonitorOp → Option (List (Option ℕ) × Monitor)
  | [] => some ([], m)
  | op :: ops =>
    match m.step op with
    | none => none
    | some (r, m) => (m.run ops).map fun rs => (r :: rs.1, rs.2)

def Key.query : Key → FourTuple
  | .ip addr => ⟨0, addr, 0, 0⟩
  | .port num => ⟨0, 0, 0, num⟩
  | .ipPort addr num => ⟨0, addr, 0, num⟩
  | .session srcIp dstIp srcPort dstPort => ⟨srcIp, dstIp, srcPort, dstPort⟩

def Watch.encode (x : Watch) : MonitorItem where
  checkStart := checkValue
  id := x.id
  srcIp := x.key.query.srcIp
  dstIp := x.key.query.dstIp
  srcPort := x.key.query.srcPort
  dstPort := x.key.query.dstPort
  monitorTimeTv := x.period
  monitorStartTime := x.startTime
  monitorLastTime := x.startTime
  monitorType := x.key.type
  monitorState := if x.stopped then .stop else .start

structure Represents (m : Monitor) (s : Store) : Prop where
  items : ∃ free, m.items = s.watches.map Watch.encode ++ free ∧ ∀ x ∈ free, x.monitorState = .init
  size : m.items.length = m.itemNumber
  capacity : m.itemNumber = s.capacity
  nextId : m.nextId = s.nextId

structure Store.Ok (s : Store) : Prop where
  valid : ∀ x ∈ s.watches, x.key.Valid
  sorted : (s.watches.map (·.id)).Pairwise (· < ·)
  below : ∀ x ∈ s.watches, x.id < s.nextId

@[simp] theorem encode_id (x : Watch) : x.encode.id = x.id := rfl

@[simp] theorem encode_monitorType (x : Watch) : x.encode.monitorType = x.key.type := rfl

theorem encode_state_ne (x : Watch) : x.encode.monitorState ≠ .init := by
  simp only [Watch.encode]
  split <;> simp

theorem isMatch_encode (x : Watch) (q : FourTuple) : isMatch x.encode q = true ↔
    x.key.Covers q := by
  obtain ⟨id, key, period, startTime, stopped⟩ := x
  cases key with
  | ip ip => simp [isMatch, Watch.encode, Key.type, Key.query, Key.Covers]
  | port port => simp [isMatch, Watch.encode, Key.type, Key.query, Key.Covers]
  | ipPort ip port => simp [isMatch, Watch.encode, Key.type, Key.query, Key.Covers]
  | session srcIp dstIp srcPort dstPort =>
    simp [isMatch, Watch.encode, Key.type, Key.query, Key.Covers, FourTuple.reverse,
      FourTuple.ext_iff]
    tauto

theorem code_le_of_covers {key key' : Key} (h : key'.Valid) (hcovers : key'.Covers key.query) :
    key'.type.code ≤ key.type.code := by
  cases key <;> cases key' <;>
    simp only [Key.type, ItemType.code, Key.query, Key.Covers, Key.Valid, FourTuple.reverse,
      FourTuple.mk.injEq] at * <;> omega

theorem covers_query_iff {key key' : Key} (h : key'.Valid) (htype : key'.type = key.type) :
    key'.Covers key.query ↔ key'.Same key := by
  cases key with
  | ip ip =>
    cases key' with
    | ip ip' =>
      have hne : ip' ≠ 0 := h
      simp [Key.Covers, Key.query, Key.Same, Key.reverse, hne]
    | _ => cases htype
  | port port =>
    cases key' with
    | port port' =>
      have hne : port' ≠ 0 := h
      simp [Key.Covers, Key.query, Key.Same, Key.reverse, hne]
    | _ => cases htype
  | ipPort ip port =>
    cases key' with
    | ipPort ip' port' =>
      have hne : ip' ≠ 0 := h.1
      simp [Key.Covers, Key.query, Key.Same, Key.reverse, hne]
    | _ => cases htype
  | session srcIp dstIp srcPort dstPort =>
    cases key' with
    | session srcIp' dstIp' srcPort' dstPort' =>
      simp [Key.Covers, Key.query, Key.Same, Key.reverse, FourTuple.reverse]
    | _ => cases htype

theorem type_eq_of_same {key key' : Key} (h : key'.Same key) : key'.type = key.type := by
  obtain rfl | rfl := h
  · rfl
  · cases key <;> rfl

theorem code_injective {t t' : ItemType} (h : t.code = t'.code) : t = t' := by
  cases t <;> cases t' <;> first | rfl | cases h

end CloudHands.SessionMonitor
