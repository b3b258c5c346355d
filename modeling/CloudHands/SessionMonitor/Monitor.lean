import CloudHands.Lib.Word
import Mathlib.Tactic

/-!
# The session monitor

`SessionMonitor/ch_session_monitor.c`: a table in a mapped file that says which sessions are to be
monitored. A pointer to an item is its index, and an access past the last slot has no result. The
number of items has 32 bits, so that no counter of a loop wraps.
-/

namespace CloudHands.SessionMonitor

open CloudHands.Word (add)

inductive MonState
  | init
  | start
  | stop
  | living
  | del
deriving DecidableEq, Repr

inductive ItemType
  | ip
  | port
  | ipPort
  | session
deriving DecidableEq, Repr

def ItemType.code : ItemType → ℕ
  | .ip => 0
  | .port => 1
  | .ipPort => 2
  | .session => 3

def checkValue : ℕ := 1234

def idInitValue : ℕ := 12345

/-- `ch_session_monitor_item_t`. -/
structure MonitorItem where
  checkStart : ℕ
  id : ℕ
  srcIp : ℕ
  dstIp : ℕ
  srcPort : ℕ
  dstPort : ℕ
  monitorTimeTv : ℕ
  monitorStartTime : ℕ
  monitorLastTime : ℕ
  monitorType : ItemType
  monitorState : MonState
deriving DecidableEq, Repr

/-- `ch_session_monitor_t` with its header. -/
structure Monitor where
  itemNumber : ℕ
  nextId : ℕ
  items : List MonitorItem
deriving DecidableEq, Repr

@[ext]
structure FourTuple where
  srcIp : ℕ
  dstIp : ℕ
  srcPort : ℕ
  dstPort : ℕ
deriving DecidableEq, Repr

/-- `ITEM_INIT`; the type stays. -/
def itemInit (item : MonitorItem) : MonitorItem :=
  { checkStart := checkValue, id := 0, srcIp := 0, dstIp := 0, srcPort := 0, dstPort := 0
    monitorTimeTv := 0, monitorStartTime := 0, monitorLastTime := 0
    monitorType := item.monitorType, monitorState := .init }

/-- The table that `ch_session_monitor_load` makes of a new file, which is filled with zeros. -/
def monitorLoad (itemNumber : ℕ) : Monitor where
  itemNumber := itemNumber
  nextId := idInitValue
  items := List.replicate itemNumber (itemInit ⟨0, 0, 0, 0, 0, 0, 0, 0, 0, .ip, .init⟩)

def Monitor.write (m : Monitor) (k : ℕ) (item : MonitorItem) : Option Monitor :=
  if k < m.items.length then some { m with items := m.items.set k item } else none

def isMatch (item : MonitorItem) (q : FourTuple) : Bool :=
  match item.monitorType with
  | .port => item.dstPort == q.srcPort || item.dstPort == q.dstPort
  | .ip => item.dstIp == q.srcIp || item.dstIp == q.dstIp
  | .ipPort =>
    (item.dstIp == q.srcIp && item.dstPort == q.srcPort) ||
      (item.dstIp == q.dstIp && item.dstPort == q.dstPort)
  | .session =>
    (item.srcIp == q.srcIp && item.srcPort == q.srcPort && item.dstIp == q.dstIp &&
        item.dstPort == q.dstPort) ||
      (item.srcIp == q.dstIp && item.srcPort == q.dstPort && item.dstIp == q.srcIp &&
        item.dstPort == q.srcPort)

/-- The end of the loop body of `ch_session_monitor_item_find`: the match `cur` against the item
found before. -/
def betterItem (m : Monitor) (cur : ℕ) (curItem : MonitorItem) : Option ℕ → Option (Option ℕ)
  | none => some (some cur)
  | some k =>
    match m.items[k]? with
    | none => none
    | some item =>
      if item.monitorType.code < curItem.monitorType.code then some (some cur) else some (some k)

/-- The loop of `ch_session_monitor_item_find` with `left` turns left. -/
def itemFindFrom (m : Monitor) (q : FourTuple) : ℕ → ℕ → Option ℕ → Option (Option ℕ)
  | 0, _, item => some item
  | left + 1, cur, item =>
    match m.items[cur]? with
    | none => none
    | some curItem =>
      if curItem.monitorState = .init then some item
      else if curItem.monitorState = .stop then itemFindFrom m q left (cur + 1) item
      else if isMatch curItem q = false then itemFindFrom m q left (cur + 1) item
      else (betterItem m cur curItem item).bind (itemFindFrom m q left (cur + 1))

/-- `ch_session_monitor_item_find`. -/
def itemFind (m : Monitor) (q : FourTuple) : Option (Option ℕ) :=
  itemFindFrom m q m.itemNumber 0 none

def itemFindByIdFrom (m : Monitor) (id : ℕ) : ℕ → ℕ → Option (Option ℕ)
  | 0, _ => some none
  | left + 1, cur =>
    match m.items[cur]? with
    | none => none
    | some curItem =>
      if curItem.monitorState = .init then some none
      else if curItem.id = id then some (some cur)
      else itemFindByIdFrom m id left (cur + 1)

/-- `ch_session_monitor_item_findById`. -/
def itemFindById (m : Monitor) (id : ℕ) : Option (Option ℕ) := itemFindByIdFrom m id m.itemNumber 0

def allocItemFrom (m : Monitor) : ℕ → ℕ → Option (Option ℕ)
  | 0, _ => some none
  | left + 1, cur =>
    match m.items[cur]? with
    | none => none
    | some curItem =>
      if curItem.monitorState = .init then some (some cur) else allocItemFrom m left (cur + 1)

def allocItem (m : Monitor) : Option (Option ℕ) := allocItemFrom m m.itemNumber 0

/-- The next identifier that `ch_session_monitor_alloc_id` leaves. -/
def allocId (nextId : ℕ) : ℕ := add 64 nextId 1 % (2 ^ 64 - 1)

/-- The second half of `_item_add`; `now` is the time in milliseconds. The result is the
identifier, or one when the table is full. -/
def itemAddNew (m : Monitor) (type : ItemType) (q : FourTuple) (tv now : ℕ) :
    Option (ℕ × Monitor) :=
  match allocItem m with
  | none => none
  | some none => some (1, m)
  | some (some k) =>
    let item : MonitorItem :=
      { checkStart := checkValue, id := m.nextId, srcIp := q.srcIp, dstIp := q.dstIp
        srcPort := q.srcPort, dstPort := q.dstPort, monitorTimeTv := tv
        monitorStartTime := now / 1000, monitorLastTime := now / 1000, monitorType := type
        monitorState := .start }
    ({ m with nextId := allocId m.nextId }.write k item).map fun m' => (item.id, m')

def itemAdd (m : Monitor) (type : ItemType) (q : FourTuple) (tv now : ℕ) : Option (ℕ × Monitor) :=
  match itemFind m q with
  | none => none
  | some none => itemAddNew m type q tv now
  | some (some k) =>
    match m.items[k]? with
    | none => none
    | some item =>
      if item.monitorType = type then some (item.id, m) else itemAddNew m type q tv now

def itemAddIp (m : Monitor) (ip tv now : ℕ) : Option (ℕ × Monitor) :=
  if ip = 0 then some (0, m) else itemAdd m .ip ⟨0, ip, 0, 0⟩ tv now

def itemAddPort (m : Monitor) (port tv now : ℕ) : Option (ℕ × Monitor) :=
  if port = 0 then some (0, m) else itemAdd m .port ⟨0, 0, 0, port⟩ tv now

def itemAddIpPort (m : Monitor) (ip port tv now : ℕ) : Option (ℕ × Monitor) :=
  if ip = 0 ∨ port = 0 then some (0, m) else itemAdd m .ipPort ⟨0, ip, 0, port⟩ tv now

def itemAddSession (m : Monitor) (srcIp dstIp srcPort dstPort tv now : ℕ) :
    Option (ℕ × Monitor) :=
  if srcIp = 0 ∨ srcPort = 0 ∨ dstIp = 0 ∨ dstPort = 0 then some (0, m)
  else itemAdd m .session ⟨srcIp, dstIp, srcPort, dstPort⟩ tv now

/-- The loop of `elements_move`, and the index at which it ends. -/
def elementsMoveFrom : ℕ → ℕ → Monitor → Option (Monitor × ℕ)
  | 0, cur, m => some (m, cur)
  | left + 1, cur, m =>
    match m.items[cur]? with
    | none => none
    | some curItem =>
      if curItem.monitorState = .init then some (m, cur)
      else (m.write (cur - 1) curItem).bind (elementsMoveFrom left (cur + 1))

def elementsMove (m : Monitor) (start : ℕ) : Option Monitor :=
  match elementsMoveFrom (m.itemNumber - (start + 1)) (start + 1) m with
  | none => none
  | some (m, cur) =>
    match m.items[cur - 1]? with
    | none => none
    | some item => m.write (cur - 1) (itemInit item)

/-- `ch_session_monitor_item_del`. -/
def itemDel (m : Monitor) (id : ℕ) : Option Monitor :=
  match itemFindById m id with
  | none => none
  | some none => some m
  | some (some k) => elementsMove m k

/-- The common part of `ch_session_monitor_item_stop` and `ch_session_monitor_item_restart`. -/
def itemSetState (m : Monitor) (id : ℕ) (state : MonState) : Option Monitor :=
  match itemFindById m id with
  | none => none
  | some none => some m
  | some (some k) =>
    match m.items[k]? with
    | none => none
    | some item => m.write k { item with monitorState := state }

def itemStop (m : Monitor) (id : ℕ) : Option Monitor := itemSetState m id .stop

def itemRestart (m : Monitor) (id : ℕ) : Option Monitor := itemSetState m id .start

end CloudHands.SessionMonitor
