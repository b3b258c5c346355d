import CloudHands.Lib.Run
import CloudHands.Lib.UpdateSum
import CloudHands.Lib.Word

/-!
# Packets between the receive tasks and the workers

`_pkt_handle` of the receive tasks, `ch_process_interface_put`, `ch_process_queue_pop`
and the loop bodies of the session tasks, cut into atomic steps. Any number of receive
tasks feeds the queues, and every queue has one worker. A received packet is a chain
of segments with its own number, so that a segment of the pool is another segment
each time it is received. The verdicts of the parser, of the packet filter and of the
interface filters and the choice of the queue are labels of the steps.

`rte_pktmbuf_free` takes one from the count of every segment of the chain and returns
those that reach zero; `returned` counts the returns. `accepted` and `delivered`
count, for each packet and interface, the calls of put that returned zero and the pops.
-/

namespace CloudHands.Dispatch

open CloudHands.Lib
open CloudHands.Word (sub)

inductive PktType
  | tcp
  | udp
  | other
deriving DecidableEq, Repr

inductive ProcessInterface
  | tcp
  | udp
  | sa
deriving DecidableEq, Repr

structure Segment where
  refcnt : ℕ
  returned : ℕ
deriving DecidableEq, Repr

structure Packet where
  pktType : PktType
  segs : List Segment
deriving DecidableEq, Repr

def segmentFree (seg : Segment) : Segment :=
  let refcnt := sub 16 seg.refcnt 1
  { refcnt := refcnt, returned := if refcnt = 0 then seg.returned + 1 else seg.returned }

def packetFree (pkt : Packet) : Packet := { pkt with segs := pkt.segs.map segmentFree }

/-- `ch_packet_ref_count_set`: `rte_mbuf_refcnt_set` on the first segment. -/
def packetRefCountSet (pkt : Packet) (v : ℕ) : Packet :=
  match pkt.segs with
  | [] => pkt
  | seg :: segs => { pkt with segs := { seg with refcnt := v } :: segs }

/-- A fresh packet of `n + 1` segments as the port hands it out. -/
def packetReceived (pktType : PktType) (n : ℕ) : Packet :=
  { pktType := pktType, segs := List.replicate (n + 1) ⟨1, 0⟩ }

section

variable (Q : Type*)

/-- Where a receive task stands in `_pkt_handle`. In `put`, the queue is there once the
test of its ring has passed. -/
inductive RxTask
  | idle
  | parsing (pkt : ℕ)
  | put (pkt : ℕ) (pint : ProcessInterface) (queue : Option Q)
deriving DecidableEq, Repr

/-- A worker processes the popped packet itself or the copy of a freed one. -/
inductive Worker
  | idle
  | processing (pkt : ℕ)
  | processingCopy
deriving DecidableEq, Repr

structure DispatchConfig where
  pint : Q → ProcessInterface
  qsize : ProcessInterface → ℕ
  isPktCopy : ProcessInterface → Bool
  isFromPcap : Bool

end

variable {T Q : Type*}

structure DispatchState (T Q : Type*) where
  number : ℕ
  packets : ℕ → Packet
  tasks : T → RxTask Q
  rings : Q → List ℕ
  workers : Q → Worker
  accepted : ℕ → ProcessInterface → ℕ
  delivered : ℕ → ProcessInterface → ℕ

def DispatchState.init : DispatchState T Q :=
  { number := 0, packets := fun _ => ⟨.other, []⟩, tasks := fun _ => .idle, rings := fun _ => []
    workers := fun _ => .idle, accepted := fun _ _ => 0, delivered := fun _ _ => 0 }

def ringFull (cfg : DispatchConfig Q) (s : DispatchState T Q) (q : Q) : Bool :=
  decide (cfg.qsize (cfg.pint q) - 1 ≤ (s.rings q).length)

def countUp (f : ℕ → ProcessInterface → ℕ) (pkt : ℕ) (pint : ProcessInterface) :
    ℕ → ProcessInterface → ℕ :=
  Function.update f pkt (Function.update (f pkt) pint (f pkt pint + 1))

def DispatchState.setPacket (s : DispatchState T Q) (p : ℕ) (pkt : Packet) : DispatchState T Q :=
  { s with packets := Function.update s.packets p pkt }

def DispatchState.free (s : DispatchState T Q) (p : ℕ) : DispatchState T Q :=
  s.setPacket p (packetFree (s.packets p))

def DispatchState.setTask [DecidableEq T] (s : DispatchState T Q) (t : T) (task : RxTask Q) :
    DispatchState T Q :=
  { s with tasks := Function.update s.tasks t task }

def DispatchState.setWorker [DecidableEq Q] (s : DispatchState T Q) (q : Q) (worker : Worker) :
    DispatchState T Q :=
  { s with workers := Function.update s.workers q worker }

def DispatchState.setRing [DecidableEq Q] (s : DispatchState T Q) (q : Q) (ring : List ℕ) :
    DispatchState T Q :=
  { s with rings := Function.update s.rings q ring }

def firstInterface : PktType → Option ProcessInterface
  | .tcp => some .tcp
  | .udp => some .udp
  | .other => none

/-- What the task does after the put to `pint` returned. -/
def afterPut (p : ℕ) : ProcessInterface → RxTask Q
  | .sa => .idle
  | _ => .put p .sa none

inductive DispatchOp (T Q : Type*)
  | receive (task : T) (pktType : PktType) (n : ℕ)
  | reject (task : T)
  | dispatch (task : T)
  | ignore (task : T)
  | test (task : T) (queue : Q)
  | enqueue (task : T)
  | pop (queue : Q)
  | finish (queue : Q)

section

variable [DecidableEq T] [DecidableEq Q]

/-- The part of `_pkt_handle` that sets the reference count and starts the first put. -/
def DispatchState.dispatch (s : DispatchState T Q) (t : T) (p : ℕ) : DispatchState T Q :=
  match firstInterface (s.packets p).pktType with
  | some pint =>
    (s.setPacket p (packetRefCountSet (s.packets p) 2)).setTask t (.put p pint none)
  | none => s.setTask t (.put p .sa none)

/-- The test of the ring in `ch_process_interface_put`. From a pcap file the task waits
for room, else the packet is refused and freed. -/
def DispatchState.test (cfg : DispatchConfig Q) (s : DispatchState T Q) (t : T) (p : ℕ)
    (pint : ProcessInterface) (q : Q) : DispatchState T Q :=
  if ringFull cfg s q then
    if cfg.isFromPcap then s else (s.free p).setTask t (afterPut p pint)
  else s.setTask t (.put p pint (some q))

def DispatchState.enqueue (cfg : DispatchConfig Q) (s : DispatchState T Q) (t : T) (p : ℕ)
    (pint : ProcessInterface) (q : Q) : DispatchState T Q :=
  let s1 := if ringFull cfg s q then s else s.setRing q (s.rings q ++ [p])
  { s1.setTask t (afterPut p pint) with accepted := countUp s.accepted p pint }

/-- `ch_process_queue_pop`: a packet of several segments, or every packet of a copying
queue, is copied and freed at once. -/
def DispatchState.pop (cfg : DispatchConfig Q) (s : DispatchState T Q) (q : Q) (p : ℕ)
    (ring : List ℕ) : DispatchState T Q :=
  let s1 := { s.setRing q ring with delivered := countUp s.delivered p (cfg.pint q) }
  if cfg.isPktCopy (cfg.pint q) || decide (1 < (s.packets p).segs.length) then
    (s1.free p).setWorker q .processingCopy
  else s1.setWorker q (.processing p)

inductive DispatchStep (cfg : DispatchConfig Q) :
    DispatchState T Q → DispatchOp T Q → DispatchState T Q → Prop
  | receive {s : DispatchState T Q} {t : T} {pktType : PktType} {n : ℕ}
      (idle : s.tasks t = .idle) :
      DispatchStep cfg s (.receive t pktType n)
        { (s.setPacket s.number (packetReceived pktType n)).setTask t (.parsing s.number) with
          number := s.number + 1 }
  | reject {s : DispatchState T Q} {t : T} {p : ℕ} (busy : s.tasks t = .parsing p) :
      DispatchStep cfg s (.reject t) ((s.free p).setTask t .idle)
  | dispatch {s : DispatchState T Q} {t : T} {p : ℕ} (busy : s.tasks t = .parsing p) :
      DispatchStep cfg s (.dispatch t) (s.dispatch t p)
  | ignore {s : DispatchState T Q} {t : T} {p : ℕ} {pint : ProcessInterface}
      (busy : s.tasks t = .put p pint none) :
      DispatchStep cfg s (.ignore t) ((s.free p).setTask t (afterPut p pint))
  | test {s : DispatchState T Q} {t : T} {p : ℕ} {pint : ProcessInterface} {q : Q}
      (busy : s.tasks t = .put p pint none) (queue : cfg.pint q = pint) :
      DispatchStep cfg s (.test t q) (s.test cfg t p pint q)
  | enqueue {s : DispatchState T Q} {t : T} {p : ℕ} {pint : ProcessInterface} {q : Q}
      (busy : s.tasks t = .put p pint (some q)) :
      DispatchStep cfg s (.enqueue t) (s.enqueue cfg t p pint q)
  | pop {s : DispatchState T Q} {q : Q} {p : ℕ} {ring : List ℕ} (idle : s.workers q = .idle)
      (head : s.rings q = p :: ring) : DispatchStep cfg s (.pop q) (s.pop cfg q p ring)
  | finish {s : DispatchState T Q} {q : Q} {p : ℕ} (busy : s.workers q = .processing p) :
      DispatchStep cfg s (.finish q) ((s.free p).setWorker q .idle)
  | finishCopy {s : DispatchState T Q} {q : Q} (busy : s.workers q = .processingCopy) :
      DispatchStep cfg s (.finish q) (s.setWorker q .idle)

def DispatchRun (cfg : DispatchConfig Q) :
    List (DispatchState T Q × DispatchOp T Q) → DispatchState T Q → Prop :=
  Run (DispatchStep cfg) .init

/-- A packet of two consumers has one segment, and an enqueue finds the room that its
test has seen. -/
def DispatchStepOk (cfg : DispatchConfig Q) (s : DispatchState T Q) : DispatchOp T Q → Prop
  | .dispatch t => ∀ p, s.tasks t = .parsing p → (firstInterface (s.packets p).pktType).isSome →
      (s.packets p).segs.length = 1
  | .enqueue t => ∀ p pint q, s.tasks t = .put p pint (some q) → ¬ ringFull cfg s q
  | _ => True

end

end CloudHands.Dispatch
