import CloudHands.Mysql.Parse

/-!
# MySQL exchanges

A command and the packets of its response, and how an established connection carries a sequence
of them. What the parser makes of the segments depends on the packets alone.
-/

namespace CloudHands.Mysql

open Lib Http Proto
open Mail (Side Cut)

structure Exchange where
  command : List UInt8
  responses : List (List UInt8)
  deriving DecidableEq, Repr

/-- Packets numbered from `k` on, modulo 256. -/
def numberFrom (k : ℕ) (payloads : List (List UInt8)) : List (UInt8 × List UInt8) :=
  (payloads.zipIdx k).map fun p => (UInt8.ofNat p.2, p.1)

namespace Exchange

def packets (x : Exchange) : List (UInt8 × List UInt8) := numberFrom 1 x.responses

structure Valid (x : Exchange) : Prop where
  command : x.command.length < 2 ^ 24
  responses : ∀ payload ∈ x.responses, payload.length < 2 ^ 24

instance (x : Exchange) : Decidable x.Valid :=
  decidable_of_iff
    (x.command.length < 2 ^ 24 ∧ ∀ payload ∈ x.responses, payload.length < 2 ^ 24)
    ⟨fun ⟨a, b⟩ => ⟨a, b⟩, fun ⟨a, b⟩ => ⟨a, b⟩⟩

theorem snd_mem_of_mem_packets {x : Exchange} {p : UInt8 × List UInt8} (h : p ∈ x.packets) :
    p.2 ∈ x.responses := by
  unfold packets numberFrom at h
  obtain ⟨q, hq, rfl⟩ := List.mem_map.1 h
  exact List.fst_mem_of_mem_zipIdx hq

def stored (x : Exchange) : MysqlSessionData :=
  ⟨mysqlRequestParse x.command, x.packets.map fun p => mysqlResponseParse p.1 p.2⟩

end Exchange

/-- The exchanges in segments: each direction is cut anywhere, and the pieces of a command come
before those of its response. -/
inductive Segments : List Exchange → List (Side × List UInt8) → Prop
  | nil : Segments [] []
  | exchange {x : Exchange} {xs : List Exchange} {cs ss segs : List (Side × List UInt8)} :
      Cut .client (packetBytes 0 x.command) cs →
      Cut .server (x.packets.flatMap fun p => packetBytes p.1 p.2) ss →
      Segments xs segs → Segments (x :: xs) (cs ++ (ss ++ segs))

def Established (e : MysqlEntry) : Prop :=
  ∃ greeting login answer,
    run .init [(.server, greeting), (.client, login), (.server, answer)] = some e

/-- The parser does not break, and every response packet is with the command it answers. -/
def Attributed (e : MysqlEntry) (xs : List Exchange) (segs : List (Side × List UInt8)) : Prop :=
  ∃ e' s', run e segs = some e' ∧ e'.msession = some s' ∧
    s'.entries.map (·.toMysqlSessionData) = xs.map Exchange.stored

def ready (s : MysqlSession) (entries : List SessionData) : MysqlEntry :=
  ⟨[], [], some { s with entries := entries }⟩

theorem responseParse_login {e e' : MysqlEntry} {s : MysqlSession} {data : List UInt8}
    (hs : e.msession = some s) (hreq : s.authPhrase = .req) (h : responseParse e data = some e') :
    e' = { e with msession := some { s with authPhrase := .ack, authState := .ok } } := by
  simp only [responseParse, hs, hreq] at h
  split_ifs at h
  cases h
  rfl

theorem Established.eq_ready {e : MysqlEntry} (h : Established e) :
    ∃ s, s.authPhrase = .ack ∧ e = ready s [] := by
  obtain ⟨greeting, login, answer, hrun⟩ := h
  by_cases hmysql : isMysql greeting
  · let s : MysqlSession := ⟨.req, .err, readStr greeting 5,
      if 37 < login.length then readStr login 36 else [], []⟩
    have hgreeting : dataParse .init (.server, greeting) =
        some ⟨[], [], some (mysqlSessionCreate (readStr greeting 5))⟩ := by
      simp [dataParse, hmysql, responseParse, MysqlEntry.init]
    rw [run, List.foldlM_cons, hgreeting] at hrun
    have hanswer : (responseParse ⟨[], [], some s⟩ answer).bind some = some e := hrun
    rw [Option.bind_fun_some] at hanswer
    exact ⟨{ s with authPhrase := .ack, authState := .ok }, rfl,
      responseParse_login (s := s) rfl rfl hanswer⟩
  · simp [run, dataParse, MysqlEntry.init, hmysql] at hrun

theorem run_append (e : MysqlEntry) (segs more : List (Side × List UInt8)) :
    run e (segs ++ more) = (run e segs).bind fun e' => run e' more := by
  simp only [run, List.foldlM_append]
  rfl

theorem run_cut {side : Side}
    {step : List SessionData → List UInt8 → Outcome (List SessionData) UInt8}
    (hsteady : Steady step) (put : List SessionData × List UInt8 → MysqlEntry)
    (hparse : ∀ r data, dataParse (put r) (side, data) = (Lib.feed step r data).map put)
    {bytes : List UInt8} {segs : List (Side × List UInt8)} (h : Cut side bytes segs)
    (entries : List SessionData) :
    run (put (entries, [])) segs = (drain step entries bytes).map put := by
  have hfold : ∀ (segs : List (Side × List UInt8)), (∀ seg ∈ segs, seg.1 = side) → ∀ r,
      run (put r) segs = ((segs.map Prod.snd).foldlM (Lib.feed step) r).map put := by
    intro segs hside
    induction segs with
    | nil => exact fun r => rfl
    | cons seg segs ih =>
      intro r
      obtain ⟨side', data⟩ := seg
      obtain ⟨rfl, hrest⟩ := List.forall_mem_cons.1 hside
      simp only [run, List.foldlM_cons, List.map_cons, hparse]
      cases Lib.feed step r data with
      | none => rfl
      | some r' => exact ih hrest r'
  rw [hfold segs h.2, feed_pieces hsteady (hsteady.wait_nil entries), ← h.1, List.nil_append]

section

variable {s : MysqlSession} (hs : s.authPhrase = .ack)
include hs

theorem run_command {x : Exchange} (hx : x.Valid) {cs : List (Side × List UInt8)}
    (h : Cut .client (packetBytes 0 x.command) cs) (entries : List SessionData) :
    run (ready s entries) cs = some (ready s (requestPacketContentParse entries x.command 0)) := by
  have hstep : ∀ entries, ∀ payload ∈ [x.command], ∀ more,
      requestPacketStep entries (packetBytes 0 payload ++ more) =
        .take (requestPacketContentParse entries payload 0) more := by
    intro entries payload hpayload more
    obtain rfl := List.mem_singleton.1 hpayload
    exact requestPacketStep_packet hx.command 0 entries more
  have hunit := drain_units requestPacketStep_steady (packetBytes 0)
    (fun entries payload => some (requestPacketContentParse entries payload 0)) hstep entries
  rw [List.flatMap_singleton] at hunit
  have hput := run_cut requestPacketStep_steady (fun r => ⟨r.2, [], some { s with entries := r.1 }⟩)
    (fun r data => by simp [dataParse, requestParse, hs, Lib.feed, readPrefare])
    h entries
  exact hput.trans (by rw [hunit]; rfl)

theorem run_responses {x : Exchange} (hx : x.Valid) {ss : List (Side × List UInt8)}
    (h : Cut .server (x.packets.flatMap fun p => packetBytes p.1 p.2) ss)
    (entries : List SessionData) :
    run (ready s entries) ss = (x.packets.foldlM respond entries).map (ready s) := by
  have hstep : ∀ entries, ∀ p ∈ x.packets, ∀ more,
      responsePacketStep entries (packetBytes p.1 p.2 ++ more) =
        (respond entries p).elim .stop (.take · more) := by
    intro entries p hp more
    exact responsePacketStep_packet (hx.responses p.2 (Exchange.snd_mem_of_mem_packets hp)) p.1
      entries more
  have hunits := drain_units responsePacketStep_steady
    (fun p : UInt8 × List UInt8 => packetBytes p.1 p.2) respond hstep entries
  have hput := run_cut responsePacketStep_steady
      (fun r => ⟨[], r.2, some { s with entries := r.1 }⟩)
    (fun r data => by simp [dataParse, responseParse, hs, Lib.feed, readPrefare])
    h entries
  refine hput.trans ?_
  rw [hunits, Option.map_map]
  rfl

end

def followExchange (entries : List SessionData) (x : Exchange) : Option (List SessionData) :=
  x.packets.foldlM respond (requestPacketContentParse entries x.command 0)

theorem run_segments {s : MysqlSession} (hs : s.authPhrase = .ack) {xs : List Exchange}
    (hv : ∀ x ∈ xs, x.Valid) {segs : List (Side × List UInt8)} (h : Segments xs segs)
    (entries : List SessionData) :
    run (ready s entries) segs = (xs.foldlM followExchange entries).map (ready s) := by
  induction h generalizing entries with
  | nil => rfl
  | @exchange x xs cs ss segs hcs hss _ ih =>
    obtain ⟨hx, hxs⟩ := List.forall_mem_cons.1 hv
    rw [run_append, run_command hs hx hcs, Option.bind_some, run_append, run_responses hs hx hss,
      List.foldlM_cons, followExchange]
    cases x.packets.foldlM respond (requestPacketContentParse entries x.command 0) with
    | none => rfl
    | some entries' => exact ih hxs entries'

theorem attributed_iff_follow {s : MysqlSession} (hs : s.authPhrase = .ack) {xs : List Exchange}
    (hv : ∀ x ∈ xs, x.Valid) {segs : List (Side × List UInt8)} (h : Segments xs segs) :
    Attributed (ready s []) xs segs ↔
      ∃ entries, xs.foldlM followExchange [] = some entries ∧
        entries.map (·.toMysqlSessionData) = xs.map Exchange.stored := by
  unfold Attributed
  rw [run_segments hs hv h]
  constructor
  · rintro ⟨e', s', hrun, hs', hstored⟩
    obtain ⟨entries, hentries, rfl⟩ := Option.map_eq_some_iff.1 hrun
    obtain rfl := Option.some.inj hs'
    exact ⟨entries, hentries, hstored⟩
  · rintro ⟨entries, hentries, hstored⟩
    exact ⟨ready s entries, _, by rw [hentries]; rfl, rfl, hstored⟩

end CloudHands.Mysql
