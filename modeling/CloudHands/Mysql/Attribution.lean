import CloudHands.Mysql.Exchange

/-!
# Attribution of MySQL responses

The parser looks for the entry of a response packet among all the commands so far, the
oldest first. That finds the command that is being answered exactly when no command before it
had fewer response packets, as long as the numbers of the packets do not wrap.
-/

namespace CloudHands.Mysql

open Lib Http Proto
open Mail (Side Cut)

/-- No response has more packets than one before it, and none has more than 255. -/
structure Ordered (xs : List Exchange) : Prop where
  shrinking : xs.Pairwise fun x y => y.responses.length ≤ x.responses.length
  short : ∀ x ∈ xs, x.responses.length ≤ 255

/-- A response of `n` packets may come behind the exchanges. -/
def Fits (done : List Exchange) (n : ℕ) : Prop := n ≤ 255 ∧ ∀ y ∈ done, n ≤ y.responses.length

theorem ordered_concat {done : List Exchange} {x : Exchange} :
    Ordered (done ++ [x]) ↔ Ordered done ∧ Fits done x.responses.length := by
  constructor
  · rintro ⟨hshrinking, hshort⟩
    obtain ⟨hdone, -, hlast⟩ := List.pairwise_append.1 hshrinking
    exact ⟨⟨hdone, fun y hy => hshort y (List.mem_append_left _ hy)⟩,
      hshort x (by simp), fun y hy => hlast y hy x (by simp)⟩
  · rintro ⟨⟨hshrinking, hshort⟩, hlen, hlast⟩
    refine ⟨List.pairwise_append.2 ⟨hshrinking, List.pairwise_singleton _ _, ?_⟩, ?_⟩
    · intro y hy z hz
      obtain rfl := List.mem_singleton.1 hz
      exact hlast y hy
    · intro y hy
      rcases List.mem_append.1 hy with hy | hy
      · exact hshort y hy
      · obtain rfl := List.mem_singleton.1 hy
        exact hlen

def Exchange.sessionData (x : Exchange) : SessionData :=
  ⟨x.stored, UInt8.ofNat x.responses.length⟩

theorem sessionData_curSeq {x : Exchange} (h : x.responses.length ≤ 255) :
    x.sessionData.curSeq.toNat = x.responses.length := by
  rw [Exchange.sessionData, UInt8.toNat_ofNat']
  omega

theorem sessionData_resList_length (x : Exchange) :
    x.sessionData.resList.length = x.responses.length := by
  simp [Exchange.sessionData, Exchange.stored, Exchange.packets, numberFrom]

theorem sessionData_concat (command payload : List UInt8) (before : List (List UInt8)) :
    responsePacketContentParse payload (UInt8.ofNat (before.length + 1))
        (Exchange.sessionData ⟨command, before⟩) =
      Exchange.sessionData ⟨command, before ++ [payload]⟩ := by
  simp [responsePacketContentParse, Exchange.sessionData, Exchange.stored, Exchange.packets,
    numberFrom, List.zipIdx_append, Nat.add_comm]

/-- A packet behind the `k`-th follows the entries that hold `k` packets. -/
theorem follows_iff {x : Exchange} (h : x.responses.length ≤ 255) {k : ℕ} (hk : k < 255) :
    x.sessionData.curSeq.toNat + 1 = (UInt8.ofNat (k + 1)).toNat ↔ x.responses.length = k := by
  rw [sessionData_curSeq h, UInt8.toNat_ofNat']
  omega

theorem respond_fits {done : List Exchange} (hdone : Ordered done) {command : List UInt8}
    {before : List (List UInt8)} (hfits : Fits done (before.length + 1)) (payload : List UInt8) :
    respond (done.map Exchange.sessionData ++ [Exchange.sessionData ⟨command, before⟩])
        (UInt8.ofNat (before.length + 1), payload) =
      some (done.map Exchange.sessionData ++
        [Exchange.sessionData ⟨command, before ++ [payload]⟩]) := by
  obtain ⟨hlen, hlonger⟩ := hfits
  have hk : before.length < 255 := by omega
  have hmiss : (done.map Exchange.sessionData).findIdx?
      (fun sdata => sdata.curSeq.toNat + 1 = (UInt8.ofNat (before.length + 1)).toNat) = none := by
    refine List.findIdx?_eq_none_iff.2 fun sdata hsdata => ?_
    obtain ⟨y, hy, rfl⟩ := List.mem_map.1 hsdata
    have hmore := hlonger y hy
    rw [decide_eq_false_iff_not, follows_iff (hdone.short y hy) hk]
    omega
  have hself : (Exchange.sessionData ⟨command, before⟩).curSeq.toNat + 1 =
      (UInt8.ofNat (before.length + 1)).toNat :=
    (follows_iff (x := ⟨command, before⟩) hk.le hk).2 rfl
  have hfind : findSessionData
      (done.map Exchange.sessionData ++ [Exchange.sessionData ⟨command, before⟩])
      (UInt8.ofNat (before.length + 1)) = some (done.map Exchange.sessionData).length := by
    rw [findSessionData, List.findIdx?_append, hmiss, List.findIdx?_singleton,
      if_pos (by simpa using hself)]
    simp
  have hseq : ¬(UInt8.ofNat (before.length + 1)).toNat < 1 := by omega
  rw [respond, if_neg hseq, hfind, Option.map_some, List.modify_eq_take_cons_drop (by simp),
    ← sessionData_concat]
  simp

def Overfull (done : List Exchange) (entries : List SessionData) : Prop :=
  ∃ (i : ℕ) (y : Exchange) (sdata : SessionData), done[i]? = some y ∧ entries[i]? = some sdata ∧
    y.responses.length < sdata.resList.length

theorem respond_overfull {done : List Exchange} (hdone : Ordered done) {command : List UInt8}
    {before : List (List UInt8)} (hfits : Fits done before.length)
    (hnot : ¬Fits done (before.length + 1)) {payload : List UInt8} {entries : List SessionData}
    (h : respond (done.map Exchange.sessionData ++ [Exchange.sessionData ⟨command, before⟩])
      (UInt8.ofNat (before.length + 1), payload) = some entries) : Overfull done entries := by
  unfold respond at h
  split_ifs at h with hseq
  have hk : before.length < 255 := by
    rw [UInt8.toNat_ofNat'] at hseq
    have hlen := hfits.1
    omega
  obtain ⟨y, hy, hlen⟩ : ∃ y ∈ done, y.responses.length = before.length := by
    by_contra hnone
    push Not at hnone
    refine hnot ⟨hk, fun y hy => ?_⟩
    have hle := hfits.2 y hy
    have hne := hnone y hy
    omega
  obtain ⟨i, hfind, rfl⟩ := Option.map_eq_some_iff.1 h
  obtain ⟨hi, hfollows, hfirst⟩ := List.findIdx?_eq_some_iff_getElem.1 hfind
  obtain ⟨j, hj, rfl⟩ := List.getElem_of_mem hy
  have hij : i ≤ j := by
    by_contra hlt
    have hbefore := hfirst j (by omega)
    rw [List.getElem_append_left (by simpa using hj), List.getElem_map, decide_eq_true_iff,
      follows_iff (hdone.short _ hy) hk] at hbefore
    exact hbefore hlen
  have hidone : i < done.length := by omega
  rw [List.getElem_append_left (by simpa using hidone), List.getElem_map, decide_eq_true_iff,
    follows_iff (hdone.short _ (List.getElem_mem hidone)) hk] at hfollows
  refine ⟨i, done[i], responsePacketContentParse payload (UInt8.ofNat (before.length + 1))
    done[i].sessionData, List.getElem?_eq_getElem hidone, ?_, ?_⟩
  · rw [List.getElem?_modify_eq, List.getElem?_append_left (by simpa using hidone),
      List.getElem?_map, List.getElem?_eq_getElem hidone]
    rfl
  · simp [responsePacketContentParse, sessionData_resList_length]

theorem Overfull.mono {done : List Exchange} {entries entries' : List SessionData}
    (h : Overfull done entries)
    (hgrow : ∀ (i : ℕ) (sdata : SessionData), entries[i]? = some sdata →
      ∃ sdata' : SessionData, entries'[i]? = some sdata' ∧
        sdata.resList.length ≤ sdata'.resList.length) : Overfull done entries' := by
  obtain ⟨i, y, sdata, hy, hsdata, hlt⟩ := h
  obtain ⟨sdata', hsdata', hle⟩ := hgrow i sdata hsdata
  exact ⟨i, y, sdata', hy, hsdata', hlt.trans_le hle⟩

theorem Overfull.respond {done : List Exchange} {entries entries' : List SessionData}
    (h : Overfull done entries) {pkt : UInt8 × List UInt8}
    (hrespond : Mysql.respond entries pkt = some entries') : Overfull done entries' := by
  unfold Mysql.respond at hrespond
  split_ifs at hrespond
  obtain ⟨j, -, rfl⟩ := Option.map_eq_some_iff.1 hrespond
  refine h.mono fun i sdata hsdata => ?_
  by_cases hij : j = i
  · subst hij
    exact ⟨responsePacketContentParse pkt.2 pkt.1 sdata,
      by rw [List.getElem?_modify_eq, hsdata]; rfl, by simp [responsePacketContentParse]⟩
  · exact ⟨sdata, by rw [List.getElem?_modify_ne _ _ hij, hsdata], le_rfl⟩

theorem Overfull.packets {done : List Exchange} {entries entries' : List SessionData}
    (h : Overfull done entries) {pkts : List (UInt8 × List UInt8)}
    (hpkts : pkts.foldlM Mysql.respond entries = some entries') : Overfull done entries' := by
  induction pkts generalizing entries with
  | nil =>
    obtain rfl := Option.some.inj hpkts
    exact h
  | cons pkt pkts ih =>
    rw [List.foldlM_cons] at hpkts
    obtain ⟨entries₁, hfirst, hrest⟩ := Option.bind_eq_some_iff.1 hpkts
    exact ih (h.respond hfirst) hrest

theorem Overfull.exchanges {done : List Exchange} {entries entries' : List SessionData}
    (h : Overfull done entries) {xs : List Exchange}
    (hxs : xs.foldlM followExchange entries = some entries') : Overfull done entries' := by
  induction xs generalizing entries with
  | nil =>
    obtain rfl := Option.some.inj hxs
    exact h
  | cons x xs ih =>
    rw [List.foldlM_cons] at hxs
    obtain ⟨entries₁, hfirst, hrest⟩ := Option.bind_eq_some_iff.1 hxs
    have hrequest : Overfull done (requestPacketContentParse entries x.command 0) := by
      refine h.mono fun i sdata hsdata => ⟨sdata, ?_, le_rfl⟩
      obtain ⟨hi, -⟩ := List.getElem?_eq_some_iff.1 hsdata
      rw [requestPacketContentParse, List.getElem?_append_left hi, hsdata]
    exact ih (hrequest.packets hfirst) hrest

theorem Overfull.not_stored {done rest : List Exchange} {entries : List SessionData}
    (h : Overfull done entries) :
    entries.map (·.toMysqlSessionData) ≠ (done ++ rest).map Exchange.stored := by
  intro heq
  obtain ⟨i, y, sdata, hy, hsdata, hlt⟩ := h
  obtain ⟨hi, -⟩ := List.getElem?_eq_some_iff.1 hy
  have hstored := congrArg (·[i]?) heq
  simp only [List.getElem?_map, hsdata, List.getElem?_append_left hi, hy, Option.map_some,
    Option.some.injEq] at hstored
  have hlen := sessionData_resList_length y
  simp only [Exchange.sessionData, ← hstored] at hlen
  omega

theorem packets_follow {done : List Exchange} (hdone : Ordered done) {command : List UInt8}
    {before : List (List UInt8)} (hfits : Fits done before.length) (after : List (List UInt8)) :
    (Fits done (before ++ after).length →
      (numberFrom (before.length + 1) after).foldlM respond
          (done.map Exchange.sessionData ++ [Exchange.sessionData ⟨command, before⟩]) =
        some (done.map Exchange.sessionData ++ [Exchange.sessionData ⟨command, before ++ after⟩])) ∧
      (¬Fits done (before ++ after).length → ∀ entries,
        (numberFrom (before.length + 1) after).foldlM respond
            (done.map Exchange.sessionData ++ [Exchange.sessionData ⟨command, before⟩]) =
          some entries → Overfull done entries) := by
  induction after generalizing before with
  | nil => exact ⟨fun _ => by rw [List.append_nil]; rfl, fun hnot =>
      absurd (by simpa using hfits) hnot⟩
  | cons payload after ih =>
    have hnumber : numberFrom (before.length + 1) (payload :: after) =
        (UInt8.ofNat (before.length + 1), payload) ::
          numberFrom ((before ++ [payload]).length + 1) after := by
      simp [numberFrom]
    have hall : before ++ payload :: after = before ++ [payload] ++ after := by simp
    rw [hnumber, List.foldlM_cons]
    by_cases hnext : Fits done (before.length + 1)
    · have hstep := @respond_fits done hdone command before hnext payload
      rw [hstep, hall]
      exact ih (by simpa using hnext)
    · have hlong : ¬Fits done (before ++ payload :: after).length := by
        rintro ⟨hlen, hall⟩
        rw [List.length_append, List.length_cons] at hlen hall
        exact hnext ⟨by omega, fun y hy => by have := hall y hy; omega⟩
      refine ⟨fun hfit => absurd hfit hlong, fun _ entries hrun => ?_⟩
      obtain ⟨entries₁, hfirst, hrest⟩ := Option.bind_eq_some_iff.1 hrun
      exact (respond_overfull hdone hfits hnext hfirst).packets hrest

theorem follow_iff {done : List Exchange} (hdone : Ordered done) (xs : List Exchange) :
    (∃ entries, xs.foldlM followExchange (done.map Exchange.sessionData) = some entries ∧
        entries.map (·.toMysqlSessionData) = (done ++ xs).map Exchange.stored) ↔
      Ordered (done ++ xs) := by
  induction xs generalizing done with
  | nil =>
    rw [List.append_nil]
    refine ⟨fun _ => hdone, fun _ => ⟨_, rfl, ?_⟩⟩
    simp [Function.comp_def, Exchange.sessionData]
  | cons x xs ih =>
    have hzero : Fits done ([] : List (List UInt8)).length := ⟨by simp, by simp⟩
    obtain ⟨hgood, hbad⟩ := @packets_follow done hdone x.command [] hzero x.responses
    have hall : done ++ x :: xs = done ++ [x] ++ xs := by simp
    by_cases hfits : Fits done x.responses.length
    · have hnext : followExchange (done.map Exchange.sessionData) x =
          some ((done ++ [x]).map Exchange.sessionData) := by
        rw [List.map_append]
        exact hgood hfits
      rw [List.foldlM_cons, hnext, hall]
      exact ih (ordered_concat.2 ⟨hdone, hfits⟩)
    · constructor
      · rintro ⟨entries, hrun, hstored⟩
        rw [List.foldlM_cons] at hrun
        obtain ⟨entries₁, hfirst, hrest⟩ := Option.bind_eq_some_iff.1 hrun
        exact absurd hstored ((hbad hfits entries₁ hfirst).exchanges hrest).not_stored
      · intro hordered
        rw [hall] at hordered
        have hprefix : Ordered (done ++ [x]) :=
          ⟨(List.pairwise_append.1 hordered.shrinking).1,
            fun y hy => hordered.short y (List.mem_append_left _ hy)⟩
        exact absurd (ordered_concat.1 hprefix).2 hfits

/-- The responses of an established connection are attributed exactly when they are ordered. -/
theorem attributed_iff {e : MysqlEntry} (he : Established e) {xs : List Exchange}
    (hv : ∀ x ∈ xs, x.Valid) {segs : List (Side × List UInt8)} (h : Segments xs segs) :
    Attributed e xs segs ↔ Ordered xs := by
  obtain ⟨s, hs, rfl⟩ := he.eq_ready
  rw [attributed_iff_follow hs hv h]
  exact @follow_iff [] ⟨List.Pairwise.nil, by simp⟩ xs

def loggedIn : MysqlEntry := ready ⟨.ack, .ok, bytesOf "8.0", [], []⟩ []

theorem loggedIn_established : Established loggedIn :=
  ⟨[30, 0, 0, 0, 10] ++ bytesOf "8.0" ++ [0, 0, 0, 0] ++ bytesOf "mysql_native_password",
    [4, 0, 0, 1, 5, 166, 255, 1], [7, 0, 0, 2, 0, 0, 0, 2, 0, 0, 0], rfl⟩

def queryThenPing : List Exchange := [⟨[3, 49], [[1], [254]]⟩, ⟨[14], [[0]]⟩]

def pingThenQuery : List Exchange := [⟨[14], [[0]]⟩, ⟨[3, 49], [[1], [254]]⟩]

theorem queryThenPing_attributed :
    Attributed loggedIn queryThenPing
      ([(.client, [2, 0, 0]), (.client, [0, 3, 49])] ++
        ([(.server, [1, 0, 0, 1, 1, 1, 0]), (.server, [0, 2, 254])] ++
        ([(.client, [1, 0, 0, 0, 14])] ++ ([(.server, [1, 0, 0, 1, 0])] ++ [])))) :=
  (attributed_iff loggedIn_established (by decide)
    (.exchange ⟨by decide, by decide⟩ ⟨by decide, by decide⟩
      (.exchange ⟨by decide, by decide⟩ ⟨by decide, by decide⟩ .nil))).2
    ⟨by decide, by decide⟩

/-- The second packet of the later response goes to the ping. -/
theorem pingThenQuery_not_attributed :
    Established loggedIn ∧ (∀ x ∈ pingThenQuery, x.Valid) ∧
      ∃ segs, Segments pingThenQuery segs ∧ ¬Attributed loggedIn pingThenQuery segs := by
  have hsegs : Segments pingThenQuery
      ([(.client, [1, 0, 0, 0, 14])] ++ ([(.server, [1, 0, 0, 1, 0])] ++
        ([(.client, [2, 0, 0, 0, 3, 49])] ++
        ([(.server, [1, 0, 0, 1, 1, 1, 0, 0, 2, 254])] ++ [])))) :=
    .exchange ⟨by decide, by decide⟩ ⟨by decide, by decide⟩
      (.exchange ⟨by decide, by decide⟩ ⟨by decide, by decide⟩ .nil)
  refine ⟨loggedIn_established, by decide, _, hsegs, ?_⟩
  rintro ⟨e', s', hrun, hs', hstored⟩
  obtain rfl := Option.some.inj hrun
  obtain rfl := Option.some.inj hs'
  have hlengths := congrArg (List.map fun sdata => sdata.resList.length) hstored
  exact absurd hlengths (by decide)

end CloudHands.Mysql
