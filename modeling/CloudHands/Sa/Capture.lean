import CloudHands.Sa.SessionHandler
import CloudHands.Tcp.LossFree

/-!
# What the stream analysis captures

The stores of a session hold the first bytes of the two streams, as far as they were
received without a hole, up to the configured payload size and the size of a store. The
handler looks at the FIN before the data, so the bytes that come with a FIN are lost
unless they were received before.
-/

namespace CloudHands.Sa

open CloudHands.Word (add sub)
open CloudHands.Slice
open CloudHands.Lib
open CloudHands.Tcp

def storedBytes (side : SaSide) : List UInt8 := side.dstore.elim [] (·.data)

theorem length_storedBytes (side : SaSide) :
    (storedBytes side).length = dstoreSize side.dstore := by
  cases hd : side.dstore <;> simp [storedBytes, dstoreSize, hd]

/-- The side has stored what it wants of the first `n` bytes of the stream. -/
structure Stored (s : List UInt8) (limit cap n : ℕ) (side : SaSide) : Prop where
  error : side.error = false
  dsize : ∀ dst ∈ side.dstore, dst.dsize = cap
  out : storedBytes side = s.take (min n (min limit cap))

structure Capturing (s : List UInt8) (limit cap : ℕ) (R : Set ℕ) (ep : TcpSessionEndpoint)
    (side : SaSide) : Prop where
  stored : Stored s limit cap ep.lastOffset side
  frags : FragmentsOk ep.asFrag
  carries : ∀ f ∈ ep.asFrag, f.Carries s
  bound : ep.lastOffset ≤ s.length
  received : ∀ i < min limit cap, i ∈ R ↔ i < ep.lastOffset ∨ i ∈ covered ep.asFrag
  holed : ∀ f ∈ ep.asFrag, ep.lastOffset < f.offset

def StoreOk (mallocOk : Bool) (dsp : DataStorePool) (side : SaSide) : Prop :=
  side.dstore.isSome ∨ dsp.freeN ≠ 0 ∨ (dsp.allocN ≤ dsp.dstoreLimits ∧ mallocOk)

theorem sideStore_spec {mallocOk : Bool} {dsp : DataStorePool} {side : SaSide} {cap : ℕ}
    (hok : StoreOk mallocOk dsp side) (hpool : dsp.dsize = cap)
    (hcap : ∀ dst ∈ side.dstore, dst.dsize = cap) :
    ∃ dst, (sideStore mallocOk side dsp).1 = some dst ∧ dst.dsize = cap ∧
      dst.data = storedBytes side ∧ (sideStore mallocOk side dsp).2.dsize = cap := by
  unfold sideStore
  cases hd : side.dstore with
  | some dst => exact ⟨dst, rfl, hcap dst (by rw [hd]; rfl), by simp [storedBytes, hd], hpool⟩
  | none =>
    simp only [StoreOk, hd, Option.isSome_none, Bool.false_eq_true, false_or] at hok
    unfold dataStoreGet
    by_cases hfree : dsp.freeN = 0
    · obtain ⟨hlimit, hmalloc⟩ := hok.resolve_left (not_not.2 hfree)
      refine ⟨.empty dsp.dsize, ?_, hpool, by simp [storedBytes, hd, DataStore.empty], ?_⟩ <;>
        simp [hfree, hmalloc, not_lt.2 hlimit, hpool]
    · refine ⟨.empty dsp.dsize, ?_, hpool, by simp [storedBytes, hd, DataStore.empty], ?_⟩ <;>
        simp [hfree, hpool]

theorem take_append_slice {s : List UInt8} {n m limit cap r : ℕ} (hnm : n ≤ m)
    (hshort : min n (min limit cap) < limit)
    (hr : r = min (min (m - n) (limit - min n (min limit cap))) (cap - min n (min limit cap))) :
    s.take (min n (min limit cap)) ++ (slice s n m).take r = s.take (min m (min limit cap)) := by
  by_cases hn : n ≤ min limit cap
  · rw [min_eq_left hn] at hr hshort ⊢
    have hnr : n + r ≤ m := by omega
    have hsum : n + r = min m (min limit cap) := by omega
    rw [take_slice s hnr, ← slice_zero, slice_append s (Nat.zero_le _) (by omega), slice_zero, hsum]
  · have hr0 : r = 0 := by omega
    rw [hr0, List.take_zero, List.append_nil]
    congr 1
    omega

structure Elsewhere (d : SessionDirect) (x y : SaSession) : Prop where
  side : y.side d.peer = x.side d.peer
  endpoint : y.session.endpoint d.peer = x.session.endpoint d.peer
  closes : y.closes = x.closes
  pool : y.pool.dsize = x.pool.dsize

theorem Elsewhere.refl (d : SessionDirect) (x : SaSession) : Elsewhere d x x := ⟨rfl, rfl, rfl, rfl⟩

theorem Elsewhere.trans {d : SessionDirect} {x y z : SaSession} (h : Elsewhere d x y)
    (h' : Elsewhere d y z) : Elsewhere d x z :=
  ⟨h'.side.trans h.side, h'.endpoint.trans h.endpoint, h'.closes.trans h.closes,
    h'.pool.trans h.pool⟩

@[simp] theorem side_setSide (x : SaSession) (d : SessionDirect) (side : SaSide) :
    (x.setSide d side).side d = side := by
  cases d <;> rfl

@[simp] theorem side_setEndpoint (x : SaSession) (d d' : SessionDirect) (ep : TcpSessionEndpoint) :
    (x.setEndpoint d ep).side d' = x.side d' := by
  cases d' <;> rfl

@[simp] theorem setSide_session (x : SaSession) (d : SessionDirect) (side : SaSide) :
    (x.setSide d side).session = x.session := by
  cases d <;> rfl

@[simp] theorem setEndpoint_session (x : SaSession) (d : SessionDirect) (ep : TcpSessionEndpoint) :
    (x.setEndpoint d ep).session = x.session.setEndpoint d ep := rfl

theorem Elsewhere.setSide (x : SaSession) (d : SessionDirect) (side : SaSide) :
    Elsewhere d x (x.setSide d side) := by
  cases d <;> exact ⟨rfl, rfl, rfl, rfl⟩

theorem Elsewhere.setEndpoint (x : SaSession) (d : SessionDirect) (ep : TcpSessionEndpoint) :
    Elsewhere d x (x.setEndpoint d ep) := by
  cases d <;> exact ⟨rfl, rfl, rfl, rfl⟩

/-- A write of the bytes `n` to `m` of the stream behind the stored prefix. Once the store
has all it wants, the fragments of the endpoint are dropped. -/
theorem storePayload_spec {ctx : SaContext} {d : SessionDirect} {dst : DataStore}
    {data s : List UInt8} {n m : ℕ} {x : SaSession} (hnm : n ≤ m) (hm : m ≤ s.length)
    (hdata : data.take (m - n) = slice s n m)
    (hout : dst.data = s.take (min n (min ctx.payloadDataSize dst.dsize))) :
    let y := storePayload ctx d dst data (m - n) x
    Elsewhere d x y ∧ (y.side d).error = (x.side d).error ∧
      (∃ dst', (y.side d).dstore = some dst' ∧ dst'.dsize = dst.dsize) ∧
      storedBytes (y.side d) = s.take (min m (min ctx.payloadDataSize dst.dsize)) ∧
      (y.session.endpoint d = x.session.endpoint d ∨
        (ctx.payloadDataSize ≤ m ∧
          y.session.endpoint d = { x.session.endpoint d with asFrag := [] })) := by
  intro y
  have hlen : dst.data.length = min n (min ctx.payloadDataSize dst.dsize) := by
    rw [hout, List.length_take]
    omega
  by_cases hfull : ctx.payloadDataSize ≤ dst.data.length
  · have hy : y = x.setSide d { x.side d with dstore := some dst, dataOk := true } := if_pos hfull
    refine ⟨hy ▸ Elsewhere.setSide x d _, by simp [hy], ⟨dst, by simp [hy], rfl⟩, ?_,
      Or.inl (by simp [hy])⟩
    simp only [hy, side_setSide, storedBytes, Option.elim_some]
    rw [hout]
    congr 1
    omega
  · set r := if ctx.payloadDataSize < dst.data.length + (m - n)
      then ctx.payloadDataSize - dst.data.length else m - n with hr
    have hy : y = if ctx.payloadDataSize ≤ (dataStoreWrite dst data r).data.length then
        (x.setSide d { x.side d with
          dstore := some (dataStoreWrite dst data r), dataOk := true }).setEndpoint d
            { x.session.endpoint d with asFrag := [] }
        else x.setSide d { x.side d with dstore := some (dataStoreWrite dst data r) } :=
      if_neg hfull
    have hroom : dataStoreRoom dst r = min (min (m - n)
        (ctx.payloadDataSize - min n (min ctx.payloadDataSize dst.dsize)))
        (dst.dsize - min n (min ctx.payloadDataSize dst.dsize)) := by
      rw [dataStoreRoom, hlen, hr, hlen]
      split <;> split <;> omega
    have hwrite : (dataStoreWrite dst data r).data =
        s.take (min m (min ctx.payloadDataSize dst.dsize)) := by
      have hle : dataStoreRoom dst r ≤ m - n := by omega
      change dst.data ++ data.take (dataStoreRoom dst r) = _
      rw [← min_eq_left hle, ← List.take_take, hdata, hout]
      exact take_append_slice hnm (by omega) hroom
    have hwlen : (dataStoreWrite dst data r).data.length =
        min m (min ctx.payloadDataSize dst.dsize) := by
      rw [hwrite, List.length_take]
      omega
    by_cases hdone : ctx.payloadDataSize ≤ (dataStoreWrite dst data r).data.length
    · rw [if_pos hdone] at hy
      refine ⟨hy ▸ (Elsewhere.setSide x d _).trans (Elsewhere.setEndpoint _ d _), by simp [hy],
        ⟨dataStoreWrite dst data r, by simp [hy], rfl⟩, ?_, Or.inr ⟨by omega, by simp [hy]⟩⟩
      simp only [hy, side_setEndpoint, side_setSide, storedBytes, Option.elim_some]
      exact hwrite
    · rw [if_neg hdone] at hy
      refine ⟨hy ▸ Elsewhere.setSide x d _, by simp [hy],
        ⟨dataStoreWrite dst data r, by simp [hy], rfl⟩, ?_, Or.inl (by simp [hy])⟩
      simp only [hy, side_setSide, storedBytes, Option.elim_some]
      exact hwrite

theorem writeSessionPayload_spec {ctx : SaContext} {mallocOk : Bool} {d : SessionDirect}
    {data s : List UInt8} {n m cap : ℕ} {x : SaSession} (hnm : n ≤ m) (hm : m ≤ s.length)
    (hdata : data.take (m - n) = slice s n m)
    (hstored : Stored s ctx.payloadDataSize cap n (x.side d)) (hpool : x.pool.dsize = cap)
    (hok : StoreOk mallocOk x.pool (x.side d)) :
    let y := writeSessionPayload ctx mallocOk d data (m - n) x
    Elsewhere d x y ∧ Stored s ctx.payloadDataSize cap m (y.side d) ∧ (y.side d).dstore.isSome ∧
      (y.session.endpoint d = x.session.endpoint d ∨
        (ctx.payloadDataSize ≤ m ∧
          y.session.endpoint d = { x.session.endpoint d with asFrag := [] })) := by
  intro y
  obtain ⟨dst, hget, hdsize, hold, hpool'⟩ := sideStore_spec hok hpool hstored.dsize
  set x₁ : SaSession := { x with pool := (sideStore mallocOk (x.side d) x.pool).2 } with hx₁
  have hside : x₁.side d = x.side d := by cases d <;> rfl
  have hy : y = storePayload ctx d dst data (m - n) x₁ := by
    simp only [y, writeSessionPayload, hget, hx₁]
  have hout : dst.data = s.take (min n (min ctx.payloadDataSize dst.dsize)) := by
    rw [hold, hdsize]
    exact hstored.out
  obtain ⟨helse, herror, ⟨dst', hsome, hdst'⟩, hbytes, hend⟩ :=
    storePayload_spec (d := d) (x := x₁) hnm hm hdata hout
  rw [← hy] at helse herror hsome hbytes hend
  have hpeer : Elsewhere d x x₁ := by
    refine ⟨?_, rfl, rfl, hpool'.trans hpool.symm⟩
    cases d <;> rfl
  rw [hdsize] at hbytes
  refine ⟨hpeer.trans helse, ⟨?_, ?_, hbytes⟩, by rw [hsome]; rfl, hend⟩
  · rw [herror, hside]
    exact hstored.error
  · rw [hsome]
    rintro e he
    obtain rfl : dst' = e := Option.some.inj he
    exact hdst'.trans hdsize

structure Captured (s : List UInt8) (ctx : SaContext) (cap : ℕ) (R : Set ℕ) (d : SessionDirect)
    (x y : SaSession) : Prop where
  elsewhere : Elsewhere d x y
  ident : endpointIdent (y.session.endpoint d) = endpointIdent (x.session.endpoint d)
  capturing : Capturing s ctx.payloadDataSize cap R (y.session.endpoint d) (y.side d)

theorem Capturing.dropFragments {s : List UInt8} {limit cap : ℕ} {R : Set ℕ}
    {ep : TcpSessionEndpoint} {side : SaSide} (hstored : Stored s limit cap ep.lastOffset side)
    (hbound : ep.lastOffset ≤ s.length) (hlimit : limit ≤ ep.lastOffset)
    (hR : ∀ i < min limit cap, i ∈ R) (hfrag : ep.asFrag = []) :
    Capturing s limit cap R ep side where
  stored := hstored
  frags := hfrag ▸ FragmentsOk.nil
  carries := by simp [hfrag]
  bound := hbound
  received i hi := iff_of_true (hR i hi) (Or.inl (by omega))
  holed := by simp [hfrag]

theorem carries_bound {s : List UInt8} {f : DataFragment} (hok : f.Ok) (hf : f.Carries s) :
    f.offset + f.len ≤ s.length := by
  have hlen := congrArg List.length hf
  simp only [DataFragment.bytes, List.length_take, slice, List.length_drop, hok.2.2] at hlen
  have hpos := hok.1
  omega

theorem saProcessPopped_captured {ctx : SaContext} {a : SaArrival} {d : SessionDirect}
    {s : List UInt8} {cap : ℕ} {R : Set ℕ} {x : SaSession}
    (hstored : Stored s ctx.payloadDataSize cap (x.session.endpoint d).lastOffset (x.side d))
    (hsome : (x.side d).dstore.isSome) (hpool : x.pool.dsize = cap)
    (hfrags : FragmentsOk (x.session.endpoint d).asFrag)
    (hcarries : ∀ f ∈ (x.session.endpoint d).asFrag, f.Carries s)
    (hbound : (x.session.endpoint d).lastOffset ≤ s.length)
    (hreceived : ∀ i < min ctx.payloadDataSize cap, i ∈ R ↔
      i < (x.session.endpoint d).lastOffset ∨ i ∈ covered (x.session.endpoint d).asFrag) :
    Captured s ctx cap R d x (saProcessPopped ctx a d x) := by
  set ep := x.session.endpoint d with hep
  obtain ⟨hok, hcarry, hpop⟩ := assembleFragmentPop_spec hfrags ep.lastOffset
  set p := assembleFragmentPop ep.asFrag ep.lastOffset with hp
  set x₁ := x.setEndpoint d { ep with asFrag := p.2 } with hx₁
  have hep₁ : x₁.session.endpoint d = { ep with asFrag := p.2 } := by simp [hx₁]
  have helse₁ : Elsewhere d x x₁ := Elsewhere.setEndpoint x d _
  cases hdf : p.1 with
  | none =>
    have hrun : saProcessPopped ctx a d x = x₁ := by
      simp only [saProcessPopped, ← hep, ← hp, hdf]
      rfl
    rw [hdf] at hpop
    rw [hrun]
    refine ⟨helse₁, by rw [hep₁]; rfl, ?_⟩
    rw [hep₁, hx₁, side_setEndpoint]
    refine ⟨hstored, hok, hcarry s hcarries, hbound, fun i hi => ?_, hpop.1⟩
    rw [hreceived i hi]
    exact (Set.ext_iff.1 hpop.2 i).symm
  | some df =>
    rw [hdf] at hpop
    obtain ⟨hdfok, hoff, hdfcarry, hnext, hcov⟩ := hpop
    have hend : ep.lastOffset + df.len ≤ s.length :=
      hoff ▸ carries_bound hdfok (hdfcarry s hcarries)
    have hdata : df.bytes.take (ep.lastOffset + df.len - ep.lastOffset) =
        slice s ep.lastOffset (ep.lastOffset + df.len) := by
      have hbytes : df.bytes = slice s ep.lastOffset (ep.lastOffset + df.len) :=
        hoff ▸ hdfcarry s hcarries
      rw [hbytes, List.take_of_length_le]
      rw [slice_length s hend]
    have hside₁ : x₁.side d = x.side d := by rw [hx₁, side_setEndpoint]
    obtain ⟨helse, hstored', -, hfragsEnd⟩ := writeSessionPayload_spec (x := x₁) (d := d)
      (n := ep.lastOffset) (m := ep.lastOffset + df.len) (by omega) hend hdata (hside₁ ▸ hstored)
      hpool (Or.inl (hside₁ ▸ hsome) : StoreOk a.mallocOk x₁.pool (x₁.side d))
    rw [Nat.add_sub_cancel_left] at helse hstored' hfragsEnd
    set x₂ := writeSessionPayload ctx a.mallocOk d df.bytes df.len x₁ with hx₂
    have hstop : df.stop = ep.lastOffset + df.len := by rw [hdfok.stop_eq, hoff]
    have hrun : saProcessPopped ctx a d x =
        x₂.setEndpoint d { x₂.session.endpoint d with lastOffset := df.stop } := by
      simp only [saProcessPopped, ← hep, ← hp, hdf]
      rfl
    rw [hrun, hstop]
    refine ⟨(helse₁.trans helse).trans (Elsewhere.setEndpoint x₂ d _), ?_, ?_⟩
    · rw [setEndpoint_session, endpoint_setEndpoint]
      rcases hfragsEnd with heq | ⟨-, heq⟩ <;> rw [heq, hep₁] <;> rfl
    · rw [setEndpoint_session, endpoint_setEndpoint, side_setEndpoint]
      have hcov' : ∀ i < min ctx.payloadDataSize cap,
          i ∈ R ↔ i < ep.lastOffset + df.len ∨ i ∈ covered p.2 := fun i hi => by
        rw [hreceived i hi]
        exact (Set.ext_iff.1 hcov i).symm
      rcases hfragsEnd with heq | ⟨hfull, heq⟩
      · rw [heq, hep₁]
        exact ⟨hstored', hok, hcarry s hcarries, hend, hcov', hnext⟩
      · rw [heq, hep₁]
        refine Capturing.dropFragments hstored' hend hfull (fun i hi => ?_) rfl
        exact (hcov' i hi).2 (Or.inl (by omega))

theorem assembleFragmentPush_of_ok {allocOk : Bool} {l : List DataFragment} {data : List UInt8}
    {dlen offset : ℕ} (h : (assembleFragmentPush allocOk l data dlen offset).2 = true) :
    assembleFragmentPush allocOk l data dlen offset =
      assembleFragmentPush true l data dlen offset := by
  cases allocOk with
  | true => rfl
  | false =>
    simp only [assembleFragmentPush, dataFragmentsMerge] at h ⊢
    split
    · rfl
    · rename_i hmiss
      rw [if_neg hmiss] at h
      split
      · rfl
      · rename_i hlen
        rw [if_neg hlen] at h
        simp at h

@[simp] theorem saSessionClose_closes (x : SaSession) : (saSessionClose x).closes = x.closes + 1 :=
  rfl

theorem saProcessDataPacket_captured {ctx : SaContext} {a : SaArrival} {d : SessionDirect}
    {s : List UInt8} {cap offset : ℕ} {R : Set ℕ} {x : SaSession}
    (hx : Capturing s ctx.payloadDataSize cap R (x.session.endpoint d) (x.side d))
    (hs : s.length < 2 ^ 32) (hpos : 0 < a.pkt.payloadLen)
    (hbound : offset + a.pkt.payloadLen ≤ s.length)
    (hseq : a.pkt.sentSeq = ((x.session.endpoint d).initSeq + offset) % 2 ^ 32)
    (hdata : a.pkt.pdata = some (slice s offset (offset + a.pkt.payloadLen)))
    (hpool : x.pool.dsize = cap) (hok : StoreOk a.mallocOk x.pool (x.side d))
    (hopen : (saProcessDataPacket ctx a d x).closes = x.closes) :
    Captured s ctx cap (R ∪ Set.Ico offset (offset + a.pkt.payloadLen)) d x
      (saProcessDataPacket ctx a d x) := by
  set len := a.pkt.payloadLen with hlen
  set ep := x.session.endpoint d with hep
  have hoffset : endpointOffsetGet ep a.pkt.sentSeq = offset := by
    rw [endpointOffsetGet, hseq]
    exact Word.sub_add_cancel (by omega)
  have hend : add 32 offset len = offset + len := Word.add_of_lt (by omega)
  by_cases hold : offset + len ≤ ep.lastOffset
  · -- a retransmission
    have hrun : saProcessDataPacket ctx a d x = x := by
      simp only [saProcessDataPacket, ← hep, ← hlen, hoffset, hend, if_pos hold]
    rw [hrun]
    refine ⟨Elsewhere.refl d x, rfl, hx.stored, hx.frags, hx.carries, hx.bound, fun i hi => ?_,
      hx.holed⟩
    rw [Set.mem_union, hx.received i hi, Set.mem_Ico]
    constructor
    · rintro (h | h)
      · exact h
      · exact Or.inl (lt_of_lt_of_le h.2 hold)
    · exact Or.inl
  by_cases hgap : ep.lastOffset < offset
  · -- out of order: the segment goes to the fragment list
    set r := assembleFragmentPush a.allocOk ep.asFrag (slice s offset (offset + len)) len offset
      with hr
    have hrun : saProcessDataPacket ctx a d x =
        if r.2 then x.setEndpoint d { ep with asFrag := r.1 }
        else saSessionClose (x.setEndpoint d { ep with asFrag := r.1 }) := by
      simp only [saProcessDataPacket, ← hep, ← hlen, hoffset, hend, if_neg hold, if_pos hgap,
        tcpSessionEndpointDo, hdata, Option.getD_some, ← hr]
    have hpush : r.2 = true := by
      by_contra hfail
      rw [hrun, if_neg hfail, saSessionClose_closes] at hopen
      exact absurd hopen (Nat.succ_ne_self _)
    have hslice : (slice s offset (offset + len)).length = len := by
      rw [slice_length s hbound]
      omega
    obtain ⟨-, hok', hcov, hcarry⟩ := assembleFragmentPush_spec hx.frags hpos
      (show offset + len < 2 ^ 32 by omega) hslice.ge
    rw [← assembleFragmentPush_of_ok hpush, ← hr] at hok' hcov hcarry
    rw [hrun, if_pos hpush]
    refine ⟨Elsewhere.setEndpoint x d _, ?_, ?_⟩ <;>
      rw [setEndpoint_session, endpoint_setEndpoint]
    · rfl
    rw [side_setEndpoint]
    refine ⟨hx.stored, hok', hcarry s hx.carries (by rw [List.take_of_length_le hslice.le]),
      hx.bound, fun i hi => ?_, fun f hf => ?_⟩
    · rw [hcov, Set.mem_union, Set.mem_union, hx.received i hi, or_assoc]
    · -- the first position of a fragment is covered, and nothing covered lies at the hole
      have hmem : f.offset ∈ covered r.1 :=
        ⟨f, hf, by rw [DataFragment.mem_range]; have := (hok'.1 f hf).1; omega⟩
      rw [hcov] at hmem
      rcases hmem with ⟨g, hg, hgi⟩ | hmem
      · exact lt_of_lt_of_le (hx.holed g hg) hgi.1
      · exact lt_of_lt_of_le hgap hmem.1
  · -- the segment continues the received prefix
    have hdiff : sub 32 ep.lastOffset offset = ep.lastOffset - offset := by
      have := hx.bound
      exact Word.sub_of_le (by omega) (by omega)
    have hplen : sub 32 len (ep.lastOffset - offset) = offset + len - ep.lastOffset := by
      rw [Word.sub_of_le (by omega) (by omega)]
      omega
    have hfresh : ((slice s offset (offset + len)).drop (ep.lastOffset - offset)).take
        (offset + len - ep.lastOffset) = slice s ep.lastOffset (offset + len) := by
      have hsum : offset + (ep.lastOffset - offset) = ep.lastOffset := by omega
      rw [drop_slice, hsum, List.take_of_length_le]
      rw [slice_length s hbound]
    set x₁ := x.setEndpoint d { ep with lastOffset := offset + len } with hx₁
    have hep₁ : x₁.session.endpoint d = { ep with lastOffset := offset + len } := by simp [hx₁]
    have hside₁ : x₁.side d = x.side d := by rw [hx₁, side_setEndpoint]
    obtain ⟨helse, hstored, hsome, hfragsEnd⟩ := writeSessionPayload_spec (x := x₁) (d := d)
      (n := ep.lastOffset) (m := offset + len) (by omega) hbound hfresh (hside₁ ▸ hx.stored)
      hpool (hside₁ ▸ hok : StoreOk a.mallocOk x₁.pool (x₁.side d))
    set x₂ := writeSessionPayload ctx a.mallocOk d
      ((slice s offset (offset + len)).drop (ep.lastOffset - offset))
      (offset + len - ep.lastOffset) x₁ with hx₂
    have helse₂ : Elsewhere d x x₂ := (Elsewhere.setEndpoint x d _).trans helse
    have hunion : ∀ i < min ctx.payloadDataSize cap, i ∈ R ∪ Set.Ico offset (offset + len) ↔
        i < offset + len ∨ i ∈ covered ep.asFrag := by
      intro i hi
      rw [Set.mem_union, hx.received i hi, Set.mem_Ico]
      constructor
      · rintro ((h | h) | h)
        · exact Or.inl (by omega)
        · exact Or.inr h
        · exact Or.inl h.2
      · rintro (h | h)
        · by_cases hlow : i < ep.lastOffset
          · exact Or.inl (Or.inl hlow)
          · exact Or.inr ⟨by omega, h⟩
        · exact Or.inl (Or.inr h)
    -- what the popped fragment finds behind the written payload
    obtain ⟨frags, hep₂, hfrags, hcarries, hrec⟩ : ∃ frags,
        x₂.session.endpoint d = { ep with lastOffset := offset + len, asFrag := frags } ∧
        FragmentsOk frags ∧ (∀ f ∈ frags, f.Carries s) ∧
        ∀ i < min ctx.payloadDataSize cap, i ∈ R ∪ Set.Ico offset (offset + len) ↔
          i < offset + len ∨ i ∈ covered frags := by
      rcases hfragsEnd with heq | ⟨hfull, heq⟩
      · exact ⟨ep.asFrag, by rw [heq, hep₁], hx.frags, hx.carries, hunion⟩
      · refine ⟨[], by rw [heq, hep₁], FragmentsOk.nil, by simp, fun i hi => ?_⟩
        rw [hunion i hi]
        exact iff_of_true (Or.inl (by omega)) (Or.inl (by omega))
    have hpopped : Captured s ctx cap (R ∪ Set.Ico offset (offset + len)) d x₂
        (saProcessPopped ctx a d x₂) := by
      refine saProcessPopped_captured ?_ hsome (helse₂.pool.trans hpool) ?_ ?_ ?_ ?_ <;> rw [hep₂]
      · exact hstored
      · exact hfrags
      · exact hcarries
      · exact hbound
      · exact hrec
    have hrun : saProcessDataPacket ctx a d x =
        if ctx.isBreakDataOk && (saProcessPopped ctx a d x₂).req.dataOk &&
          (saProcessPopped ctx a d x₂).res.dataOk
        then saSessionClose (saProcessPopped ctx a d x₂) else saProcessPopped ctx a d x₂ := by
      simp only [saProcessDataPacket, ← hep, ← hlen, hoffset, hend, if_neg hold, if_neg hgap, hdata,
        Option.getD_some, hdiff, hplen, ← hx₁, ← hx₂]
    have hnoBreak : ¬ (ctx.isBreakDataOk && (saProcessPopped ctx a d x₂).req.dataOk &&
        (saProcessPopped ctx a d x₂).res.dataOk) = true := by
      intro hbreak
      rw [hrun, if_pos hbreak, saSessionClose_closes, hpopped.elsewhere.closes,
        helse₂.closes] at hopen
      exact absurd hopen (Nat.succ_ne_self _)
    rw [hrun, if_neg hnoBreak]
    exact ⟨helse₂.trans hpopped.elsewhere, hpopped.ident.trans (by rw [hep₂]; rfl),
      hpopped.capturing⟩

/-- A packet of a stream with the pool as the call finds it. -/
structure SaSighting where
  arrival : SaArrival
  pool : DataStorePool
  direct : SessionDirect
  offset : ℕ

def SaSighting.range (l : SaSighting) : Set ℕ :=
  Set.Ico l.offset (l.offset + l.arrival.pkt.payloadLen)

structure OfStream (c : Conversation) (l : SaSighting) : Prop where
  addressed : Addressed c.sreq l.direct l.arrival.pkt
  seq : l.arrival.pkt.sentSeq = (sreqInitSeq c.sreq l.direct + l.offset) % 2 ^ 32
  bound : l.offset + l.arrival.pkt.payloadLen ≤ (c.stream l.direct).length
  data : l.arrival.pkt.pdata = if l.arrival.pkt.payloadLen = 0 then none
    else some (slice (c.stream l.direct) l.offset (l.offset + l.arrival.pkt.payloadLen))

structure SaOk (c : Conversation) (ctx : SaContext) (cap : ℕ) (R : SessionDirect → Set ℕ)
    (x : SaSession) : Prop where
  ident : ∀ d, endpointIdent (x.session.endpoint d) =
    endpointIdent ((tcpSessionInit c.sreq ()).endpoint d)
  capturing : ∀ d, Capturing (c.stream d) ctx.payloadDataSize cap (R d) (x.session.endpoint d)
    (x.side d)

theorem SaOk.initSeq {c : Conversation} {ctx : SaContext} {cap : ℕ} {R : SessionDirect → Set ℕ}
    {x : SaSession} (h : SaOk c ctx cap R x) (d : SessionDirect) :
    (x.session.endpoint d).initSeq = sreqInitSeq c.sreq d := by
  have hident := h.ident d
  simp only [endpointIdent, Prod.mk.injEq] at hident
  rw [hident.2.2.2.2, sreqInitSeq_eq]

def SaSame (x y : SaSession) : Prop :=
  ∀ d, y.session.endpoint d = x.session.endpoint d ∧ (y.side d).dstore = (x.side d).dstore ∧
    (y.side d).error = (x.side d).error

theorem Stored.congr {s : List UInt8} {limit cap n : ℕ} {side side' : SaSide}
    (h : Stored s limit cap n side) (hdstore : side'.dstore = side.dstore)
    (herror : side'.error = side.error) : Stored s limit cap n side' :=
  ⟨herror.trans h.error, hdstore ▸ h.dsize, by rw [storedBytes, hdstore]; exact h.out⟩

theorem Capturing.congr {s : List UInt8} {limit cap : ℕ} {R R' : Set ℕ} {ep : TcpSessionEndpoint}
    {side side' : SaSide} (h : Capturing s limit cap R ep side)
    (hR : ∀ i < min limit cap, i ∈ R' ↔ i ∈ R) (hdstore : side'.dstore = side.dstore)
    (herror : side'.error = side.error) : Capturing s limit cap R' ep side' :=
  ⟨h.stored.congr hdstore herror, h.frags, h.carries, h.bound,
    fun i hi => (hR i hi).trans (h.received i hi), h.holed⟩

theorem SaOk.congr {c : Conversation} {ctx : SaContext} {cap : ℕ} {R R' : SessionDirect → Set ℕ}
    {x y : SaSession} (h : SaOk c ctx cap R x) (hxy : SaSame x y)
    (hR : ∀ d, ∀ i < min ctx.payloadDataSize cap, i ∈ R' d ↔ i ∈ R d) : SaOk c ctx cap R' y where
  ident d := by rw [(hxy d).1]; exact h.ident d
  capturing d := by
    rw [(hxy d).1]
    exact (h.capturing d).congr (hR d) (hxy d).2.1 (hxy d).2.2

theorem saSame_updateSaEntry (d : SessionDirect) (dlen time : ℕ) (x : SaSession) :
    SaSame x (updateSaEntry d dlen time x) := by
  intro d'
  cases d <;> cases d' <;> exact ⟨rfl, rfl, rfl⟩

theorem saSame_session (x : SaSession) {s : TcpSession Unit}
    (h : ∀ d, s.endpoint d = x.session.endpoint d) : SaSame x { x with session := s } := by
  intro d
  cases d <;> exact ⟨h _, rfl, rfl⟩

theorem saSame_processFinPacket (pkt : TcpPacket) (x : SaSession) :
    SaSame x (saProcessFinPacket pkt x) := by
  unfold saProcessFinPacket
  split <;> exact saSame_session x (fun d => by cases d <;> rfl)

theorem saProcessAck_same (pkt : TcpPacket) {x : SaSession}
    (hopen : (saProcessAck pkt x).closes = 0) : SaSame x (saProcessAck pkt x) ∧ x.closes = 0 := by
  unfold saProcessAck at hopen ⊢
  by_cases h1 : isFin1Ack x.session pkt
  · rw [if_pos h1] at hopen ⊢
    exact ⟨saSame_session x (fun d => by cases d <;> rfl), hopen⟩
  · rw [if_neg h1] at hopen ⊢
    by_cases h2 : isFin2Ack x.session pkt
    · rw [if_pos h2, saSessionClose_closes] at hopen
      exact absurd hopen (Nat.succ_ne_zero _)
    · rw [if_neg h2] at hopen ⊢
      exact ⟨fun d => ⟨rfl, rfl, rfl⟩, hopen⟩

/-- The store of the packet's side can be had, and what a FIN carries of the wanted part
of the stream was received before. -/
structure CaptureOk (ctx : SaContext) (cap : ℕ) (R : Set ℕ) (x : SaSession) (l : SaSighting) :
    Prop where
  store : StoreOk l.arrival.mallocOk l.pool (x.side l.direct)
  fin : isTcpFinPacket l.arrival.pkt → ∀ i ∈ l.range, i < min ctx.payloadDataSize cap → i ∈ R

def receive (R : SessionDirect → Set ℕ) (l : SaSighting) : SessionDirect → Set ℕ :=
  Function.update R l.direct (R l.direct ∪ l.range)

theorem receive_same {ctx : SaContext} {cap : ℕ} {R : SessionDirect → Set ℕ} {l : SaSighting}
    (h : ∀ i ∈ l.range, i < min ctx.payloadDataSize cap → i ∈ R l.direct) (d : SessionDirect)
    (i : ℕ) (hi : i < min ctx.payloadDataSize cap) : i ∈ receive R l d ↔ i ∈ R d := by
  by_cases hd : d = l.direct
  · subst hd
    simp only [receive, Function.update_self, Set.mem_union]
    exact ⟨fun hmem => hmem.elim id fun hrange => h i hrange hi, Or.inl⟩
  · simp [receive, Function.update_of_ne hd]

theorem SaOk.dataStep {c : Conversation} {ctx : SaContext} {cap : ℕ} {R : SessionDirect → Set ℕ}
    {x : SaSession} {l : SaSighting} (h : SaOk c ctx cap R x)
    (hshort : ∀ d, (c.stream d).length < 2 ^ 32) (hl : OfStream c l) (hpool : x.pool.dsize = cap)
    (hstore : StoreOk l.arrival.mallocOk x.pool (x.side l.direct))
    (hpos : 0 < l.arrival.pkt.payloadLen)
    (hopen : (saProcessDataPacket ctx l.arrival l.direct x).closes = x.closes) :
    SaOk c ctx cap (receive R l) (saProcessDataPacket ctx l.arrival l.direct x) := by
  have hdata := hl.data
  rw [if_neg hpos.ne'] at hdata
  have hcap := saProcessDataPacket_captured (h.capturing l.direct) (hshort l.direct) hpos hl.bound
    (h.initSeq l.direct ▸ hl.seq) hdata hpool hstore hopen
  have hother : ∀ d, d ≠ l.direct → d = l.direct.peer := by
    intro d hd
    cases d <;> cases hdir : l.direct <;> simp_all [SessionDirect.peer]
  refine ⟨fun d => ?_, fun d => ?_⟩
  · by_cases hd : d = l.direct
    · subst hd
      exact hcap.ident.trans (h.ident _)
    · rw [hother d hd, hcap.elsewhere.endpoint]
      exact h.ident _
  · by_cases hd : d = l.direct
    · subst hd
      simp only [receive, Function.update_self]
      exact hcap.capturing
    · rw [receive, Function.update_of_ne hd, hother d hd, hcap.elsewhere.endpoint,
        hcap.elsewhere.side]
      exact h.capturing _

theorem SaOk.passedOver {c : Conversation} {ctx : SaContext} {cap : ℕ}
    {R : SessionDirect → Set ℕ} {x : SaSession} {l : SaSighting} (h : SaOk c ctx cap R x)
    (hshort : ∀ d, (c.stream d).length < 2 ^ 32) (hl : OfStream c l)
    (hskip : ¬ (l.arrival.pkt.pdata.isSome &&
      needProcessPayload ctx l.direct l.arrival.pkt x) = true) :
    ∀ i ∈ l.range, i < min ctx.payloadDataSize cap → i ∈ R l.direct := by
  intro i hi hwanted
  have hoffset : endpointOffsetGet (x.session.endpoint l.direct) l.arrival.pkt.sentSeq =
      l.offset := by
    have := hl.bound
    have := hshort l.direct
    rw [endpointOffsetGet, h.initSeq, hl.seq]
    exact Word.sub_add_cancel (by omega)
  have hcap := h.capturing l.direct
  have hlt := hi.2
  have hle := hi.1
  have hsome : l.arrival.pkt.pdata.isSome := by
    rw [hl.data, if_neg (by omega)]
    rfl
  simp only [needProcessPayload, hoffset, hcap.stored.error, hsome, Bool.true_and, Bool.not_false,
    Bool.and_true, Bool.and_eq_true, Bool.not_eq_true', decide_eq_false_iff_not, not_and,
    not_not] at hskip
  have hfull := hskip (by omega)
  have hlen : dstoreSize (x.side l.direct).dstore =
      min (x.session.endpoint l.direct).lastOffset (min ctx.payloadDataSize cap) := by
    rw [← length_storedBytes, hcap.stored.out, List.length_take]
    have := hcap.bound
    omega
  exact (hcap.received i hwanted).2 (Or.inl (by omega))

theorem SaOk.handle {c : Conversation} {ctx : SaContext} {cap : ℕ} {R : SessionDirect → Set ℕ}
    {x : SaSession} {l : SaSighting} (h : SaOk c ctx cap R x) (hlive : x.closes = 0)
    (hshort : ∀ d, (c.stream d).length < 2 ^ 32) (hl : OfStream c l) (hpool : x.pool.dsize = cap)
    (hstore : StoreOk l.arrival.mallocOk x.pool (x.side l.direct))
    (hfin : isTcpFinPacket l.arrival.pkt →
      ∀ i ∈ l.range, i < min ctx.payloadDataSize cap → i ∈ R l.direct)
    (hopen : (saPacketHandle ctx l.arrival x).closes = 0) :
    SaOk c ctx cap (receive R l) (saPacketHandle ctx l.arrival x) := by
  have hget : tcpSessionEndpointGet x.session l.arrival.pkt = some l.direct :=
    endpointGet_of_ident c h.ident hl.addressed
  set x₁ : SaSession := { x with session := { x.session with curEp := some l.direct } } with hx₁
  set x₂ := updateSaEntry l.direct l.arrival.pkt.payloadLen l.arrival.timestamp x₁ with hx₂
  have hsame₁ : SaSame x x₁ := saSame_session x (fun d => by cases d <;> rfl)
  have hsame₂ : SaSame x x₂ := by
    intro d
    obtain ⟨hep, hdstore, herror⟩ := saSame_updateSaEntry l.direct l.arrival.pkt.payloadLen
      l.arrival.timestamp x₁ d
    exact ⟨hep.trans (hsame₁ d).1, hdstore.trans (hsame₁ d).2.1, herror.trans (hsame₁ d).2.2⟩
  have hlive₂ : x₂.closes = 0 := by
    rw [← hlive]
    cases hd : l.direct <;> simp [hx₂, hd, updateSaEntry, SaSession.setSide, hx₁]
  have hpool₂ : x₂.pool = x.pool := by
    cases hd : l.direct <;> simp [hx₂, hd, updateSaEntry, SaSession.setSide, hx₁]
  have hstore₂ : StoreOk l.arrival.mallocOk x₂.pool (x₂.side l.direct) := by
    rw [StoreOk, hpool₂, (hsame₂ l.direct).2.1]
    exact hstore
  have hrun : saPacketHandle ctx l.arrival x =
      if isTcpFinPacket l.arrival.pkt then saProcessFinPacket l.arrival.pkt x₂
      else if isTcpRstPacket l.arrival.pkt then saSessionClose x₂
      else saProcessAck l.arrival.pkt
        (if l.arrival.pkt.pdata.isSome && needProcessPayload ctx l.direct l.arrival.pkt x₂
          then saProcessDataPacket ctx l.arrival l.direct x₂ else x₂) := by
    simp only [saPacketHandle, hget]
    rfl
  have hok₂ : SaOk c ctx cap R x₂ := h.congr hsame₂ fun _ _ _ => Iff.rfl
  rw [hrun] at hopen ⊢
  by_cases hf : isTcpFinPacket l.arrival.pkt
  · rw [if_pos hf]
    exact hok₂.congr (saSame_processFinPacket _ _) (receive_same (hfin hf))
  rw [if_neg hf] at hopen ⊢
  by_cases hr : isTcpRstPacket l.arrival.pkt
  · rw [if_pos hr, saSessionClose_closes] at hopen
    exact absurd hopen (Nat.succ_ne_zero _)
  rw [if_neg hr] at hopen ⊢
  obtain ⟨hack, hopen'⟩ := saProcessAck_same _ hopen
  refine SaOk.congr ?_ hack fun _ _ _ => Iff.rfl
  by_cases hneed : (l.arrival.pkt.pdata.isSome &&
      needProcessPayload ctx l.direct l.arrival.pkt x₂) = true
  · rw [if_pos hneed] at hopen' ⊢
    have hpos : 0 < l.arrival.pkt.payloadLen := by
      rw [Bool.and_eq_true, hl.data] at hneed
      by_contra hzero
      rw [if_pos (by omega)] at hneed
      simp at hneed
    exact hok₂.dataStep hshort hl (hpool₂ ▸ hpool) hstore₂ hpos (hopen'.trans hlive₂.symm)
  · rw [if_neg hneed]
    exact hok₂.congr (fun d => ⟨rfl, rfl, rfl⟩)
      (receive_same (hok₂.passedOver hshort hl hneed))

def SaStep (ctx : SaContext) (c : Conversation) (cap : ℕ) (x : SaSession) (l : SaSighting)
    (y : SaSession) : Prop :=
  (x.closes = 0 ∧ OfStream c l ∧ l.pool.dsize = cap) ∧
    y = saSessionDataProcess ctx l.arrival { x with pool := l.pool }

/-- A new session; the packets of its handshake are counted. -/
def saStart (sreq : TcpSessionRequest) (req res : SaSide) (pool : DataStorePool) : SaSession :=
  ⟨tcpSessionInit sreq (), SaSide.init req.packets req.lastTime,
    SaSide.init res.packets res.lastTime, pool, 0⟩

def SaRun (ctx : SaContext) (c : Conversation) (cap : ℕ) (start : SaSession) :
    List (SaSession × SaSighting) → SaSession → Prop :=
  Run (SaStep ctx c cap) start

/-- The positions of the stream `d` that some packet of the history carried. -/
def receivedIn (history : List (SaSession × SaSighting)) (d : SessionDirect) : Set ℕ :=
  {i | ∃ v ∈ history, v.2.direct = d ∧ i ∈ v.2.range}

theorem receivedIn_snoc (history : List (SaSession × SaSighting)) (x : SaSession)
    (l : SaSighting) : receivedIn (history ++ [(x, l)]) = receive (receivedIn history) l := by
  funext d
  ext i
  by_cases hd : d = l.direct
  · subst hd
    simp [receivedIn, receive, or_and_right, exists_or]
  · simp [receivedIn, receive, Function.update_of_ne hd, or_and_right, exists_or, Ne.symm hd]

theorem SaOk.start (c : Conversation) (ctx : SaContext) (cap : ℕ) (req res : SaSide)
    (pool : DataStorePool) : SaOk c ctx cap (receivedIn []) (saStart c.sreq req res pool) where
  ident d := rfl
  capturing d := by
    have hfrag : ((tcpSessionInit c.sreq ()).endpoint d).asFrag = [] ∧
        ((tcpSessionInit c.sreq ()).endpoint d).lastOffset = 0 := by
      cases d <;> cases hv : c.sreq.isIpv6 <;>
        simp [TcpSession.endpoint, tcpSessionInit, hv, tcpSessionEndpointInit,
          tcpSessionEndpointInitIpv6]
    obtain ⟨hnil, hzero⟩ := hfrag
    change Capturing _ _ _ _ ((tcpSessionInit c.sreq ()).endpoint d) _
    refine ⟨?_, hnil ▸ FragmentsOk.nil, by simp [hnil], by omega, ?_, by simp [hnil]⟩
    · rw [hzero]
      cases d <;> exact ⟨rfl, by simp [saStart, SaSession.side, SaSide.init],
        by simp [storedBytes, saStart, SaSession.side, SaSide.init]⟩
    · simp [hnil, hzero, receivedIn]

theorem SaOk.run {c : Conversation} {ctx : SaContext} {cap : ℕ} {req res : SaSide}
    {pool : DataStorePool} (hshort : ∀ d, (c.stream d).length < 2 ^ 32)
    {history : List (SaSession × SaSighting)} {x : SaSession}
    (hrun : SaRun ctx c cap (saStart c.sreq req res pool) history x)
    (hok : StepsOk (fun history x l => CaptureOk ctx cap (receivedIn history l.direct) x l)
      history) (hlive : x.closes = 0) : SaOk c ctx cap (receivedIn history) x := by
  refine @Run.invariant _ _ _ _ _ (fun history x => x.closes = 0 →
    SaOk c ctx cap (receivedIn history) x) (fun _ => SaOk.start c ctx cap req res pool) ?_ _ _
    hrun hok hlive
  rintro history x l y hinv hl ⟨⟨hxlive, hof, hpool⟩, rfl⟩ hylive
  rw [receivedIn_snoc]
  set x₁ : SaSession :=
    { x with session := setTcpState x.session l.arrival.pkt, pool := l.pool } with hx₁
  have hsame : SaSame x x₁ := by
    intro d
    have hstate := setTcpState_same x.session l.arrival.pkt d
    cases d <;> exact ⟨hstate, rfl, rfl⟩
  have hstore : StoreOk l.arrival.mallocOk x₁.pool (x₁.side l.direct) := by
    rw [StoreOk, (hsame l.direct).2.1]
    exact hl.store
  have hrun' : saSessionDataProcess ctx l.arrival { x with pool := l.pool } =
      if l.arrival.inRing then saSessionClose (saPacketHandle ctx l.arrival x₁)
      else saPacketHandle ctx l.arrival x₁ := rfl
  rw [hrun'] at hylive ⊢
  by_cases hring : l.arrival.inRing
  · rw [if_pos hring, saSessionClose_closes] at hylive
    exact absurd hylive (Nat.succ_ne_zero _)
  · rw [if_neg hring] at hylive ⊢
    exact SaOk.handle ((hinv hxlive).congr hsame fun _ _ _ => Iff.rfl) hxlive hshort hof hpool
      hstore hl.fin hylive

/-- The stores of a live session hold the streams as far as they were received without a
hole, up to the configured payload size and the size of a store. -/
theorem captured_prefix_of_run (c : Conversation) (ctx : SaContext) (cap : ℕ) (req res : SaSide)
    (pool : DataStorePool) (hshort : ∀ d, (c.stream d).length < 2 ^ 32)
    {history : List (SaSession × SaSighting)} {x : SaSession}
    (hrun : SaRun ctx c cap (saStart c.sreq req res pool) history x)
    (hok : StepsOk (fun history x l => CaptureOk ctx cap (receivedIn history l.direct) x l)
      history) (hlive : x.closes = 0) (d : SessionDirect) :
    (∃ k, IsGreatest {k | k ≤ (c.stream d).length ∧ Set.Iio k ⊆ receivedIn history d} k ∧
      storedBytes (x.side d) = (c.stream d).take (min (min ctx.payloadDataSize cap) k)) ∧
    ∀ dst ∈ (x.side d).dstore, dst.dsize = cap ∧ dst.data.length ≤ dst.dsize := by
  have hx := (SaOk.run hshort hrun hok hlive).capturing d
  set n := (x.session.endpoint d).lastOffset with hn
  refine ⟨?_, fun dst hdst => ⟨hx.stored.dsize dst hdst, dst.fits⟩⟩
  obtain ⟨k, hk⟩ := exists_isGreatest_prefix_covered (receivedIn history d) (c.stream d).length
  refine ⟨k, hk, hx.stored.out.trans ?_⟩
  by_cases hwanted : n < min ctx.payloadDataSize cap
  · -- the hole behind the prefix is inside the wanted part
    have hprefix : Set.Iio n ⊆ receivedIn history d := fun i hi => by
      have hi' : i < n := hi
      exact (hx.received i (by omega)).2 (Or.inl hi')
    have hhole : n ∉ receivedIn history d := by
      rw [hx.received n hwanted]
      rintro (hlt | ⟨f, hf, hi⟩)
      · exact lt_irrefl n hlt
      · exact absurd hi.1 (not_le.2 (hx.holed f hf))
    have hkn : k = n := hk.unique (isGreatest_prefix_covered hx.bound hprefix hhole)
    rw [hkn, min_comm]
  · have hcover : Set.Iio (min ctx.payloadDataSize cap) ⊆ receivedIn history d := fun i hi => by
      have hi' : i < min ctx.payloadDataSize cap := hi
      exact (hx.received i hi').2 (Or.inl (by omega))
    have hle : min ctx.payloadDataSize cap ≤ k :=
      hk.2 ⟨le_trans (not_lt.1 hwanted) hx.bound, hcover⟩
    rw [min_eq_left hle, min_eq_right (not_lt.1 hwanted)]

def threeBytes : Conversation where
  sreq := firstRequest
  stream := fun
    | .req => [10, 20, 30]
    | .res => []
  distinct := firstRequest_distinct

def twoByteContext : SaContext := ⟨2, false⟩

def fullPool : DataStorePool := ⟨1000, 0, 1000, 512, 1000⟩

def byteSighting (offset : ℕ) (flags : UInt8) : SaSighting :=
  ⟨⟨{ firstDataPacket with
        tcpFlags := flags, sentSeq := 101 + offset
        pdata := some (slice [10, 20, 30] offset (offset + 1)) }, 7, true, true, false⟩,
    fullPool, .req, offset⟩

def sawByte (x : SaSession) (l : SaSighting) : SaSession :=
  saSessionDataProcess twoByteContext l.arrival { x with pool := l.pool }

def newSession : SaSession :=
  saStart firstRequest (SaSide.init 2 5) (SaSide.init 1 6) fullPool

theorem byteSighting_ofStream {offset : ℕ} (h : offset < 3) (flags : UInt8) :
    OfStream threeBytes (byteSighting offset flags) where
  addressed := (by decide : Addressed firstRequest .req firstDataPacket)
  seq := by
    change 101 + offset = (101 + offset) % 2 ^ 32
    omega
  bound := h
  data := rfl

theorem captured_prefix_of_reordered :
    let x := [byteSighting 1 thAck, byteSighting 0 thAck].foldl sawByte newSession
    storedBytes (x.side .req) = [10, 20] ∧
      ∃ k, storedBytes (x.side .req) = [10, 20, 30].take (min (min 2 512) k) := by
  intro x
  have hrun : SaRun twoByteContext threeBytes 512 newSession
      (trace sawByte newSession [byteSighting 1 thAck, byteSighting 0 thAck]) x :=
    (Run.nil.snoc ⟨⟨rfl, byteSighting_ofStream (by decide) _, rfl⟩, rfl⟩).snoc
      ⟨⟨by decide, byteSighting_ofStream (by decide) _, rfl⟩, rfl⟩
  have hok : StepsOk (fun history x l =>
      CaptureOk twoByteContext 512 (receivedIn history l.direct) x l)
      (trace sawByte newSession [byteSighting 1 thAck, byteSighting 0 thAck]) :=
    ((StepsOk.nil _).snoc ⟨Or.inr (Or.inl (by decide)), fun hfin => absurd hfin (by decide)⟩).snoc
      ⟨Or.inr (Or.inl (by decide)), fun hfin => absurd hfin (by decide)⟩
  obtain ⟨⟨k, -, hk⟩, -⟩ := captured_prefix_of_run threeBytes twoByteContext 512
    (SaSide.init 2 5) (SaSide.init 1 6) fullPool (by decide) hrun hok (by decide) .req
  exact ⟨by decide, k, hk⟩

/-- The byte that comes with the FIN is received and not stored. -/
theorem finByte_not_captured :
    SaRun twoByteContext threeBytes 512 newSession
      (trace sawByte newSession [byteSighting 0 (thFin ||| thAck)])
      (sawByte newSession (byteSighting 0 (thFin ||| thAck))) ∧
    (sawByte newSession (byteSighting 0 (thFin ||| thAck))).closes = 0 ∧
    ∀ k, IsGreatest {k | k ≤ (threeBytes.stream .req).length ∧ Set.Iio k ⊆
        receivedIn (trace sawByte newSession [byteSighting 0 (thFin ||| thAck)]) .req} k →
      storedBytes ((sawByte newSession (byteSighting 0 (thFin ||| thAck))).side .req) ≠
        (threeBytes.stream .req).take (min (min 2 512) k) := by
  refine ⟨Run.nil.snoc ⟨⟨rfl, byteSighting_ofStream (by decide) _, rfl⟩, rfl⟩, by decide,
    fun k hk => ?_⟩
  have hmem : 1 ≤ k := hk.2 ⟨by decide, fun i hi => by
    have hi0 : i = 0 := Nat.lt_one_iff.1 hi
    subst hi0
    exact ⟨_, .head _, rfl, by decide, by decide⟩⟩
  have hempty : storedBytes ((sawByte newSession (byteSighting 0 (thFin ||| thAck))).side .req) =
      [] := by decide
  rw [hempty]
  intro heq
  have hlen := congrArg List.length heq
  simp only [List.length_nil, List.length_take] at hlen
  have hthree : (threeBytes.stream .req).length = 3 := rfl
  omega

end CloudHands.Sa
