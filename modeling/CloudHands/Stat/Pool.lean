import CloudHands.Lib.UpdateSum
import CloudHands.Lib.Word
import Mathlib.Tactic

/-!
# The traffic statistics

`statistic/ch_stat_pool.c` and `ch_stat_obj.c`. The window of a pool is cut into slots of
`stat_time_tv`, and a packet is counted in the slot of its time, once for all packets and once
for those of its type. There are as many slots as whole intervals in the window, so what is
left of the window behind them has none.
-/

namespace CloudHands.Stat

open CloudHands.Word (add sub)
open CloudHands.Lib

structure StatEntry where
  stN : ℕ := 0
  stV : ℕ := 0
deriving DecidableEq, Repr

def statEntryValueUpdate (entry : StatEntry) (uv : ℕ) : StatEntry :=
  ⟨add 64 entry.stN 1, add 64 entry.stV uv⟩

structure StatObj where
  entryNum : ℕ
  statEntris : Fin entryNum → StatEntry

def statObjInit (entryNum : ℕ) : StatObj := ⟨entryNum, fun _ => {}⟩

def statObjReset (obj : StatObj) : StatObj := ⟨obj.entryNum, fun _ => {}⟩

def statObjHandle (obj : StatObj) (index pktSize : ℕ) : StatObj :=
  if h : index < obj.entryNum then
    { obj with
      statEntris := Function.update obj.statEntris ⟨index, h⟩
        (statEntryValueUpdate (obj.statEntris ⟨index, h⟩) pktSize) }
  else obj

abbrev statNum : ℕ := 6

structure StatPool where
  baseTime : ℕ
  statTimeUp : ℕ
  statTimeTv : ℕ
  pktTotal : ℕ
  pktBytes : ℕ
  statObjs : Fin statNum → StatObj

def statEntryCount (timeUp timeTv : ℕ) : ℕ := if timeTv = 0 then 0 else timeUp / timeTv % 2 ^ 32

/-- `ch_stat_pool_create` of a new file. -/
def statPoolCreate (now statTimeUp statTimeTv : ℕ) : StatPool where
  baseTime := now
  statTimeUp := statTimeUp
  statTimeTv := statTimeTv
  pktTotal := 0
  pktBytes := 0
  statObjs := fun _ => statObjInit (statEntryCount statTimeUp statTimeTv)

def statPoolHandle (p : StatPool) (time pktSize : ℕ) (pktType : ℤ) : StatPool :=
  let p := { p with pktTotal := add 64 p.pktTotal 1, pktBytes := add 64 p.pktBytes pktSize }
  if time < p.baseTime then p
  else
    let index := (time - p.baseTime) / p.statTimeTv % 2 ^ 32
    let p := { p with
      statObjs := Function.update p.statObjs 0 (statObjHandle (p.statObjs 0) index pktSize) }
    if h : pktType ≤ 0 ∨ statNum ≤ pktType then p
    else
      let k : Fin statNum := ⟨pktType.toNat, by omega⟩
      { p with
        statObjs := Function.update p.statObjs k (statObjHandle (p.statObjs k) index pktSize) }

/-- The test of `ch_stat_pool_update`. -/
def windowPassed (p : StatPool) (time : ℕ) : Bool := p.statTimeUp ≤ sub 64 time p.baseTime

def statPoolUpdate (p : StatPool) (time : ℕ) : StatPool :=
  if windowPassed p time then
    { p with
      baseTime := time, pktTotal := 0, pktBytes := 0
      statObjs := fun k => statObjReset (p.statObjs k) }
  else p

/-- What `_pkt_stat_handle` makes of the type of a packet. -/
inductive StatPktType
  | tcp
  | udp
  | icmp
  | arp
  | other
deriving DecidableEq, Repr

def StatPktType.index : StatPktType → Fin statNum
  | .tcp => 1
  | .udp => 2
  | .icmp => 3
  | .arp => 4
  | .other => 5

def StatPktType.code (t : StatPktType) : ℤ := t.index.val

structure StatCall where
  time : ℕ
  pktSize : ℕ
  pktType : StatPktType
deriving DecidableEq, Repr

inductive StatEvent
  | handle (call : StatCall)
  | update (time : ℕ)

structure StatState where
  pool : StatPool
  calls : List StatCall

def statStep (s : StatState) : StatEvent → StatState
  | .handle c => ⟨statPoolHandle s.pool c.time c.pktSize c.pktType.code, s.calls ++ [c]⟩
  | .update time => ⟨statPoolUpdate s.pool time, if windowPassed s.pool time then [] else s.calls⟩

def statRun (now statTimeUp statTimeTv : ℕ) (events : List StatEvent) : StatState :=
  events.foldl statStep ⟨statPoolCreate now statTimeUp statTimeTv, []⟩

def number (calls : List StatCall) : ℕ := calls.length

def volume (calls : List StatCall) : ℕ := (calls.map (·.pktSize)).sum

def ofType (t : StatPktType) (calls : List StatCall) : List StatCall :=
  calls.filter fun c => c.pktType = t

def slotNumber (obj : StatObj) : ℕ := ∑ i, (obj.statEntris i).stN

def slotVolume (obj : StatObj) : ℕ := ∑ i, (obj.statEntris i).stV

/-- The slots of all packets hold the totals of the header, those of each type hold the
packets of the type, and the types add up to all packets. -/
structure Conserved (s : StatState) : Prop where
  totalNumber : slotNumber (s.pool.statObjs 0) ≡ s.pool.pktTotal [MOD 2 ^ 64]
  totalVolume : slotVolume (s.pool.statObjs 0) ≡ s.pool.pktBytes [MOD 2 ^ 64]
  typeNumber : ∀ t : StatPktType,
    slotNumber (s.pool.statObjs t.index) ≡ number (ofType t s.calls) [MOD 2 ^ 64]
  typeVolume : ∀ t : StatPktType,
    slotVolume (s.pool.statObjs t.index) ≡ volume (ofType t s.calls) [MOD 2 ^ 64]
  addUp : ∑ k ∈ Finset.univ.erase 0, slotNumber (s.pool.statObjs k) ≡
    slotNumber (s.pool.statObjs 0) [MOD 2 ^ 64]
  addUpVolume : ∑ k ∈ Finset.univ.erase 0, slotVolume (s.pool.statObjs k) ≡
    slotVolume (s.pool.statObjs 0) [MOD 2 ^ 64]

def InWindow (p : StatPool) (c : StatCall) : Prop :=
  p.baseTime ≤ c.time ∧ c.time < p.baseTime + p.statTimeUp

def InSlot (p : StatPool) (c : StatCall) : Prop :=
  p.baseTime ≤ c.time ∧
    (c.time - p.baseTime) / p.statTimeTv % 2 ^ 32 < statEntryCount p.statTimeUp p.statTimeTv

instance (p : StatPool) (c : StatCall) : Decidable (InSlot p c) :=
  inferInstanceAs (Decidable (_ ∧ _))

/-- The packet is counted in the object `k`. -/
def goesTo (k : Fin statNum) (c : StatCall) : Bool := k = 0 ∨ k = c.pktType.index

theorem statPktType_index_ne_zero (t : StatPktType) : t.index ≠ 0 := by
  cases t <;> decide

theorem sum_statEntris_handle (m : StatEntry → ℕ) (d : ℕ) (obj : StatObj) (index pktSize : ℕ)
    (hm : ∀ e, m (statEntryValueUpdate e pktSize) ≡ m e + d [MOD 2 ^ 64]) :
    ∑ i, m ((statObjHandle obj index pktSize).statEntris i) ≡
      ∑ i, m (obj.statEntris i) + (if index < obj.entryNum then d else 0) [MOD 2 ^ 64] := by
  by_cases h : index < obj.entryNum
  · set e := obj.statEntris ⟨index, h⟩ with he
    have hobj : statObjHandle obj index pktSize = { obj with
        statEntris :=
          Function.update obj.statEntris ⟨index, h⟩ (statEntryValueUpdate e pktSize) } :=
      dif_pos h
    have hsum := sum_update (fun _ => m) obj.statEntris ⟨index, h⟩ (statEntryValueUpdate e pktSize)
    rw [hobj, if_pos h]
    refine Nat.ModEq.add_right_cancel' (m e) ?_
    dsimp only
    rw [hsum]
    refine ((hm e).add_left _).trans ?_
    rw [add_right_comm, add_assoc]
  · have hobj : statObjHandle obj index pktSize = obj := dif_neg h
    rw [hobj, if_neg h]
    exact Nat.ModEq.refl _

theorem slotNumber_handle (obj : StatObj) (index pktSize : ℕ) :
    slotNumber (statObjHandle obj index pktSize) ≡
      slotNumber obj + (if index < obj.entryNum then 1 else 0) [MOD 2 ^ 64] :=
  sum_statEntris_handle StatEntry.stN 1 obj index pktSize fun _ => Nat.mod_modEq _ _

theorem slotVolume_handle (obj : StatObj) (index pktSize : ℕ) :
    slotVolume (statObjHandle obj index pktSize) ≡
      slotVolume obj + (if index < obj.entryNum then pktSize else 0) [MOD 2 ^ 64] :=
  sum_statEntris_handle StatEntry.stV pktSize obj index pktSize fun _ => Nat.mod_modEq _ _

theorem entryNum_handle (obj : StatObj) (index pktSize : ℕ) :
    (statObjHandle obj index pktSize).entryNum = obj.entryNum := by
  unfold statObjHandle
  split <;> rfl

theorem statObjs_handle (p : StatPool) (c : StatCall) (k : Fin statNum) :
    (statPoolHandle p c.time c.pktSize c.pktType.code).statObjs k =
      if p.baseTime ≤ c.time ∧ goesTo k c = true then
        statObjHandle (p.statObjs k) ((c.time - p.baseTime) / p.statTimeTv % 2 ^ 32) c.pktSize
      else p.statObjs k := by
  have htype : ¬ (c.pktType.code ≤ 0 ∨ (statNum : ℤ) ≤ c.pktType.code) := by
    cases c.pktType <;> decide
  have hindex : ∀ h, (⟨c.pktType.code.toNat, h⟩ : Fin statNum) = c.pktType.index :=
    fun _ => Fin.ext (by simp [StatPktType.code])
  unfold statPoolHandle
  dsimp only
  by_cases htime : c.time < p.baseTime
  · rw [if_pos htime, if_neg (by omega)]
  · rw [if_neg htime, dif_neg htype]
    simp only [hindex]
    have hne := statPktType_index_ne_zero c.pktType
    by_cases hk : k = c.pktType.index
    · subst hk
      rw [Function.update_self, Function.update_of_ne hne, if_pos ⟨by omega, by simp [goesTo]⟩]
    · rw [Function.update_of_ne hk]
      by_cases hzero : k = 0
      · subst hzero
        rw [Function.update_self, if_pos ⟨by omega, by simp [goesTo]⟩]
      · rw [Function.update_of_ne hzero, if_neg (by simp [goesTo, hzero, hk])]

/-- The packets that are counted in a slot of the object `k`. -/
def counted (p : StatPool) (k : Fin statNum) (calls : List StatCall) : List StatCall :=
  calls.filter fun c => InSlot p c ∧ goesTo k c = true

theorem counted_snoc (p : StatPool) (k : Fin statNum) (calls : List StatCall) (c : StatCall) :
    counted p k (calls ++ [c]) =
      counted p k calls ++ if InSlot p c ∧ goesTo k c = true then [c] else [] := by
  unfold counted
  rw [List.filter_append]
  by_cases h : InSlot p c ∧ goesTo k c = true <;> simp [h]

theorem number_append (calls calls' : List StatCall) :
    number (calls ++ calls') = number calls + number calls' := List.length_append

theorem volume_append (calls calls' : List StatCall) :
    volume (calls ++ calls') = volume calls + volume calls' := by
  simp [volume]

structure Tallied (statTimeUp statTimeTv : ℕ) (s : StatState) : Prop where
  timeUp : s.pool.statTimeUp = statTimeUp
  timeTv : s.pool.statTimeTv = statTimeTv
  entryNum : ∀ k, (s.pool.statObjs k).entryNum = statEntryCount statTimeUp statTimeTv
  total : s.pool.pktTotal ≡ number s.calls [MOD 2 ^ 64]
  bytes : s.pool.pktBytes ≡ volume s.calls [MOD 2 ^ 64]
  slots : ∀ k, slotNumber (s.pool.statObjs k) ≡ number (counted s.pool k s.calls) [MOD 2 ^ 64]
  slotBytes : ∀ k, slotVolume (s.pool.statObjs k) ≡ volume (counted s.pool k s.calls) [MOD 2 ^ 64]

theorem Tallied.reset {statTimeUp statTimeTv : ℕ} {p : StatPool} (htotal : p.pktTotal = 0)
    (hbytes : p.pktBytes = 0) (hup : p.statTimeUp = statTimeUp) (htv : p.statTimeTv = statTimeTv)
    (hobjs : ∀ k, p.statObjs k = statObjInit (statEntryCount statTimeUp statTimeTv)) :
    Tallied statTimeUp statTimeTv ⟨p, []⟩ where
  timeUp := hup
  timeTv := htv
  entryNum k := by rw [hobjs]; rfl
  total := by rw [htotal]; rfl
  bytes := by rw [hbytes]; rfl
  slots k := by
    rw [hobjs]
    simp [slotNumber, statObjInit, counted, number, Nat.ModEq.refl]
  slotBytes k := by
    rw [hobjs]
    simp [slotVolume, statObjInit, counted, volume, Nat.ModEq.refl]

theorem header_handle (p : StatPool) (time pktSize : ℕ) (pktType : ℤ) :
    (statPoolHandle p time pktSize pktType).baseTime = p.baseTime ∧
      (statPoolHandle p time pktSize pktType).statTimeUp = p.statTimeUp ∧
      (statPoolHandle p time pktSize pktType).statTimeTv = p.statTimeTv ∧
      (statPoolHandle p time pktSize pktType).pktTotal = add 64 p.pktTotal 1 ∧
      (statPoolHandle p time pktSize pktType).pktBytes = add 64 p.pktBytes pktSize := by
  unfold statPoolHandle
  dsimp only
  split
  · exact ⟨rfl, rfl, rfl, rfl, rfl⟩
  · split <;> exact ⟨rfl, rfl, rfl, rfl, rfl⟩

theorem counted_congr {p p' : StatPool} (hbase : p'.baseTime = p.baseTime)
    (hup : p'.statTimeUp = p.statTimeUp) (htv : p'.statTimeTv = p.statTimeTv) (k : Fin statNum)
    (calls : List StatCall) : counted p' k calls = counted p k calls := by
  refine List.filter_congr fun c _ => ?_
  have hslot : InSlot p' c ↔ InSlot p c := by
    unfold InSlot
    rw [hbase, hup, htv]
  simp only [hslot]

theorem Tallied.added {statTimeUp statTimeTv : ℕ} {s : StatState}
    (h : Tallied statTimeUp statTimeTv s) (c : StatCall) (k : Fin statNum) :
    let obj := (statPoolHandle s.pool c.time c.pktSize c.pktType.code).statObjs k
    obj.entryNum = statEntryCount statTimeUp statTimeTv ∧
      slotNumber obj ≡ slotNumber (s.pool.statObjs k) +
        (if InSlot s.pool c ∧ goesTo k c = true then 1 else 0) [MOD 2 ^ 64] ∧
      slotVolume obj ≡ slotVolume (s.pool.statObjs k) +
        (if InSlot s.pool c ∧ goesTo k c = true then c.pktSize else 0) [MOD 2 ^ 64] := by
  dsimp only
  rw [statObjs_handle]
  split
  case isTrue hgoes =>
    have hslot : ∀ d : ℕ, (if (c.time - s.pool.baseTime) / s.pool.statTimeTv % 2 ^ 32 <
        (s.pool.statObjs k).entryNum then d else 0) =
        if InSlot s.pool c ∧ goesTo k c = true then d else 0 := by
      intro d
      refine if_congr ?_ rfl rfl
      rw [h.entryNum, InSlot, h.timeUp, h.timeTv]
      exact ⟨fun hlt => ⟨⟨hgoes.1, hlt⟩, hgoes.2⟩, fun hin => hin.1.2⟩
    rw [← hslot 1, ← hslot c.pktSize]
    exact ⟨(entryNum_handle _ _ _).trans (h.entryNum k), slotNumber_handle _ _ _,
      slotVolume_handle _ _ _⟩
  case isFalse hgoes =>
    have hnot : ¬ (InSlot s.pool c ∧ goesTo k c = true) := fun hin => hgoes ⟨hin.1.1, hin.2⟩
    rw [if_neg hnot, if_neg hnot]
    exact ⟨h.entryNum k, Nat.ModEq.refl _, Nat.ModEq.refl _⟩

theorem Tallied.handle {statTimeUp statTimeTv : ℕ} {s : StatState}
    (h : Tallied statTimeUp statTimeTv s) (c : StatCall) :
    Tallied statTimeUp statTimeTv (statStep s (.handle c)) := by
  obtain ⟨hbase, hup, htv, htotal, hbytes⟩ := header_handle s.pool c.time c.pktSize c.pktType.code
  have hcounted : ∀ k, counted (statStep s (.handle c)).pool k (statStep s (.handle c)).calls =
      counted s.pool k s.calls ++ if InSlot s.pool c ∧ goesTo k c = true then [c] else [] :=
    fun k => (counted_congr hbase hup htv k _).trans (counted_snoc s.pool k s.calls c)
  refine ⟨hup.trans h.timeUp, htv.trans h.timeTv, fun k => (h.added c k).1, ?_, ?_, ?_, ?_⟩
  · refine Nat.ModEq.trans (b := s.pool.pktTotal + 1) ?_ ?_
    · exact (congrArg (· % 2 ^ 64) htotal).trans (Nat.mod_mod _ _)
    · change _ ≡ number (s.calls ++ [c]) [MOD 2 ^ 64]
      rw [number_append]
      exact h.total.add_right 1
  · refine Nat.ModEq.trans (b := s.pool.pktBytes + c.pktSize) ?_ ?_
    · exact (congrArg (· % 2 ^ 64) hbytes).trans (Nat.mod_mod _ _)
    · have hvolume : volume (s.calls ++ [c]) = volume s.calls + c.pktSize := by simp [volume]
      change _ ≡ volume (s.calls ++ [c]) [MOD 2 ^ 64]
      rw [hvolume]
      exact h.bytes.add_right c.pktSize
  · intro k
    rw [hcounted, number_append]
    refine (h.added c k).2.1.trans ((h.slots k).add ?_)
    split <;> exact Nat.ModEq.refl _
  · intro k
    rw [hcounted, volume_append]
    refine (h.added c k).2.2.trans ((h.slotBytes k).add ?_)
    split <;> simp [volume, Nat.ModEq.refl]

theorem Tallied.step {statTimeUp statTimeTv : ℕ} {s : StatState}
    (h : Tallied statTimeUp statTimeTv s) (e : StatEvent) :
    Tallied statTimeUp statTimeTv (statStep s e) := by
  cases e with
  | handle c => exact h.handle c
  | update time =>
    rw [statStep, statPoolUpdate]
    split
    · refine Tallied.reset rfl rfl h.timeUp h.timeTv fun k => ?_
      dsimp only
      rw [statObjReset, h.entryNum k]
      rfl
    · exact h

theorem statRun_tallied (now statTimeUp statTimeTv : ℕ) (events : List StatEvent) :
    Tallied statTimeUp statTimeTv (statRun now statTimeUp statTimeTv events) := by
  unfold statRun
  induction events using List.reverseRecOn with
  | nil => exact Tallied.reset rfl rfl rfl rfl fun _ => rfl
  | append_singleton events e ih =>
    rw [List.foldl_append]
    exact ih.step e

theorem counted_all {p : StatPool} {calls : List StatCall} (h : ∀ c ∈ calls, InSlot p c) :
    counted p 0 calls = calls := by
  refine List.filter_eq_self.2 fun c hc => ?_
  simp [h c hc, goesTo]

theorem counted_type {p : StatPool} {calls : List StatCall} (h : ∀ c ∈ calls, InSlot p c)
    (t : StatPktType) : counted p t.index calls = ofType t calls := by
  refine List.filter_congr fun c hc => ?_
  have hindex : t.index = c.pktType.index ↔ c.pktType = t := by
    cases t <;> cases c.pktType <;> decide
  simp [h c hc, goesTo, statPktType_index_ne_zero, hindex]

theorem sum_types (m : Fin statNum → ℕ) :
    ∑ k ∈ Finset.univ.erase 0, m k =
      m (StatPktType.index .tcp) + m (StatPktType.index .udp) + m (StatPktType.index .icmp) +
        m (StatPktType.index .arp) + m (StatPktType.index .other) := by
  have herase : (Finset.univ.erase 0 : Finset (Fin statNum)) = {1, 2, 3, 4, 5} := by decide
  rw [herase]
  simp [StatPktType.index, add_assoc]

theorem number_types (calls : List StatCall) :
    number (ofType .tcp calls) + number (ofType .udp calls) + number (ofType .icmp calls) +
      number (ofType .arp calls) + number (ofType .other calls) = number calls := by
  induction calls with
  | nil => rfl
  | cons c calls ih =>
    simp only [number, ofType, List.filter_cons, List.length_cons] at ih ⊢
    cases c.pktType <;> simp <;> omega

theorem volume_types (calls : List StatCall) :
    volume (ofType .tcp calls) + volume (ofType .udp calls) + volume (ofType .icmp calls) +
      volume (ofType .arp calls) + volume (ofType .other calls) = volume calls := by
  induction calls with
  | nil => rfl
  | cons c calls ih =>
    simp only [volume, ofType, List.filter_cons, List.map_cons, List.sum_cons] at ih ⊢
    cases c.pktType <;> simp <;> omega

theorem Tallied.conserved {statTimeUp statTimeTv : ℕ} {s : StatState}
    (h : Tallied statTimeUp statTimeTv s) (hslot : ∀ c ∈ s.calls, InSlot s.pool c) :
    Conserved s := by
  have hall := h.slots 0
  have hallBytes := h.slotBytes 0
  rw [counted_all hslot] at hall hallBytes
  have htype : ∀ t : StatPktType,
      slotNumber (s.pool.statObjs t.index) ≡ number (ofType t s.calls) [MOD 2 ^ 64] := by
    intro t
    rw [← counted_type hslot t]
    exact h.slots t.index
  have htypeBytes : ∀ t : StatPktType,
      slotVolume (s.pool.statObjs t.index) ≡ volume (ofType t s.calls) [MOD 2 ^ 64] := by
    intro t
    rw [← counted_type hslot t]
    exact h.slotBytes t.index
  refine ⟨hall.trans h.total.symm, hallBytes.trans h.bytes.symm, htype, htypeBytes, ?_, ?_⟩
  · rw [sum_types]
    refine Nat.ModEq.trans ?_ hall.symm
    rw [← number_types s.calls]
    exact ((((htype _).add (htype _)).add (htype _)).add (htype _)).add (htype _)
  · rw [sum_types]
    refine Nat.ModEq.trans ?_ hallBytes.symm
    rw [← volume_types s.calls]
    exact ((((htypeBytes _).add (htypeBytes _)).add (htypeBytes _)).add (htypeBytes _)).add
      (htypeBytes _)

theorem Tallied.inSlot {statTimeUp statTimeTv : ℕ} {s : StatState}
    (h : Tallied statTimeUp statTimeTv s) (hlen : s.calls.length < 2 ^ 64) (hs : Conserved s) :
    ∀ c ∈ s.calls, InSlot s.pool c := by
  have hle : (counted s.pool 0 s.calls).length ≤ s.calls.length := List.length_filter_le _ _
  have hmod : number (counted s.pool 0 s.calls) ≡ number s.calls [MOD 2 ^ 64] :=
    (h.slots 0).symm.trans (hs.totalNumber.trans h.total)
  have heq : (counted s.pool 0 s.calls).length = s.calls.length :=
    hmod.eq_of_lt_of_lt (lt_of_le_of_lt hle hlen) hlen
  intro c hc
  have hkept := List.length_filter_eq_length_iff.1 heq c hc
  exact (of_decide_eq_true hkept).1

theorem inSlot_of_dvd {p : StatPool} (hdvd : p.statTimeTv ∣ p.statTimeUp)
    (hcount : p.statTimeUp / p.statTimeTv < 2 ^ 32) {c : StatCall} (hc : InWindow p c) :
    InSlot p c := by
  obtain ⟨hbase, hend⟩ := hc
  obtain ⟨n, hn⟩ := hdvd
  have htv : 0 < p.statTimeTv := by
    rcases Nat.eq_zero_or_pos p.statTimeTv with hzero | hpos
    · rw [hzero, Nat.zero_mul] at hn
      omega
    · exact hpos
  have hindex : (c.time - p.baseTime) / p.statTimeTv < n := by
    rw [Nat.div_lt_iff_lt_mul htv, Nat.mul_comm, ← hn]
    omega
  rw [hn, Nat.mul_div_cancel_left n htv] at hcount
  refine ⟨hbase, ?_⟩
  rw [statEntryCount, if_neg htv.ne', hn, Nat.mul_div_cancel_left n htv, Nat.mod_eq_of_lt hcount,
    Nat.mod_eq_of_lt (hindex.trans hcount)]
  exact hindex

/-- In every run of a pool, whatever has happened before its last reset: the statistics of
the packets since then are conserved when each of them has a slot, and only then as long as
there are fewer of them than the counters can hold. -/
theorem traffic_conserved_iff (now statTimeUp statTimeTv : ℕ) (events : List StatEvent) :
    let s := statRun now statTimeUp statTimeTv events
    ((∀ c ∈ s.calls, InSlot s.pool c) → Conserved s) ∧
      (s.calls.length < 2 ^ 64 → Conserved s → ∀ c ∈ s.calls, InSlot s.pool c) := by
  have h := statRun_tallied now statTimeUp statTimeTv events
  exact ⟨h.conserved, h.inSlot⟩

def lastSecond : List StatEvent := [.handle ⟨2, 60, .tcp⟩]

/-- The packet is counted in the header and has no slot. -/
theorem lastSecond_not_conserved :
    ¬ ∀ (now statTimeUp statTimeTv : ℕ) (events : List StatEvent), 0 < statTimeUp →
      0 < statTimeTv → (∀ c ∈ (statRun now statTimeUp statTimeTv events).calls,
        InWindow (statRun now statTimeUp statTimeTv events).pool c) →
      Conserved (statRun now statTimeUp statTimeTv events) := by
  intro h
  have hconserved := h 0 3 2 lastSecond (by decide) (by decide) (by
    intro c hc
    obtain rfl := List.mem_singleton.1 hc
    exact ⟨by decide, by decide⟩)
  have htotal := hconserved.totalNumber
  revert htotal
  decide

end CloudHands.Stat
