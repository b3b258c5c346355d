import CloudHands.Dns.FieldReading

/-!
# The parsers of OPT, APL, NSEC3, TSIG, IPSECKEY and TXT records

Each parser is a program of reads. It fills a record that its create function has
initialised, and what it has filled stays when it returns -1.
-/

namespace CloudHands.Dns

open Lib

structure OptEntry where
  code : ℕ
  dlen : ℕ
  data : Option (List UInt8)
deriving DecidableEq

structure AplEntry where
  family : ℕ
  pfx : ℕ
  neg : Bool
  dlen : ℕ
  data : Option (List UInt8)
deriving DecidableEq

structure RdataNsec3 where
  hashAlg : ℕ := 0
  flags : ℕ := 0
  iterations : ℕ := 0
  saltLen : ℕ := 0
  salt : Option (List UInt8) := none
  hashLen : ℕ := 0
  next : Option (List UInt8) := none
  typebitmapLen : ℕ := 0
  typebitmap : Option (List UInt8) := none
deriving DecidableEq

structure RdataTsig where
  alg : Option DnsName := none
  timeSigned : ℕ := 0
  fudge : ℕ := 0
  sigLen : ℕ := 0
  signature : Option (List UInt8) := none
  origId : ℕ := 0
  error : ℕ := 0
  otherLen : ℕ := 0
  other : Option (List UInt8) := none
deriving DecidableEq

structure RdataIpseckey where
  precedence : ℕ := 0
  gatewayType : ℕ := 0
  alg : ℕ := 0
  inAddr : ℕ := 0
  in6Addr : List UInt8 := List.replicate 16 0
  gateway : Option DnsName := none
  keyLen : ℕ := 0
  key : Option (List UInt8) := none
deriving DecidableEq

inductive RdataFields
  | opt (entries : List OptEntry)
  | apl (entries : List AplEntry)
  | nsec3 (rdata : RdataNsec3)
  | tsig (rdata : RdataTsig)
  | ipseckey (rdata : RdataIpseckey)
  | txt (txts : List (List UInt8))
deriving DecidableEq

abbrev RdataProgram (α : Type) : Type 1 := Calls ReadCall α

def uint8Read : RdataProgram ℕ := .single (.uint 1)
def uint16Read : RdataProgram ℕ := .single (.uint 2)
def uint32Read : RdataProgram ℕ := .single (.uint 4)

/-- `CH_DNS_DLEN_CHECK`: too large, or more than is left. -/
def dlenCheck (dlen : ℕ) : RdataProgram Bool := do
  let rdlen ← .single .rdlen
  pure (decide (512 < dlen ∨ rdlen < dlen))

def optEntryCreate : RdataProgram (Option OptEntry) := do
  let code ← uint16Read
  let dlen ← uint16Read
  if ← dlenCheck dlen then pure none
  else
    let data ← .single (.bytes dlen)
    pure (some ⟨code, dlen, data⟩)

def aplEntryCreate : RdataProgram (Option AplEntry) := do
  let family ← uint16Read
  let pfx ← uint8Read
  let v ← uint8Read
  let dlen := v % 128
  if ← dlenCheck dlen then pure none
  else
    let data ← .single (.bytes dlen)
    pure (some ⟨family, pfx, decide (128 ≤ v), dlen, data⟩)

def entriesParse {ε : Type} (entryCreate : RdataProgram (Option ε)) : ℕ → RdataProgram (List ε)
  | 0 => pure []
  | fuel + 1 => do
    let rdlen ← .single .rdlen
    if rdlen < 4 then pure []
    else
      match ← entryCreate with
      | none => pure []
      | some entry => do
        let entries ← entriesParse entryCreate fuel
        pure (entry :: entries)

def rdataOptParse (dlen : ℕ) : RdataProgram (List OptEntry × ℤ) :=
  if dlen = 0 then pure ([], -1)
  else do
    let entries ← entriesParse optEntryCreate dlen
    pure (entries, 0)

def rdataAplParse (dlen : ℕ) : RdataProgram (List AplEntry × ℤ) :=
  if dlen = 0 then pure ([], -1)
  else do
    let entries ← entriesParse aplEntryCreate dlen
    pure (entries, 0)

def rdataNsec3Parse (dlen : ℕ) : RdataProgram (RdataNsec3 × ℤ) :=
  if dlen < 6 then pure ({}, -1)
  else do
    let hashAlg ← uint8Read
    let flags ← uint8Read
    let iterations ← uint16Read
    let saltLen ← uint8Read
    let nsec3 : RdataNsec3 := { hashAlg, flags, iterations, saltLen }
    if ← dlenCheck saltLen then pure (nsec3, -1)
    else
      let salt ← if saltLen ≠ 0 then .single (.bytes saltLen) else pure none
      let hashLen ← uint8Read
      let nsec3 := { nsec3 with salt, hashLen }
      if ← dlenCheck hashLen then pure (nsec3, -1)
      else
        let next ← .single (.bytes hashLen)
        let rdlen ← .single .rdlen
        let typebitmapLen := rdlen % 2 ^ 16
        let nsec3 := { nsec3 with next, typebitmapLen }
        if ← dlenCheck typebitmapLen then pure (nsec3, -1)
        else
          let typebitmap ← .single (.bytes typebitmapLen)
          pure ({ nsec3 with typebitmap }, 0)

def rdataTsigParse (dlen : ℕ) : RdataProgram (RdataTsig × ℤ) :=
  if dlen < 16 then pure ({}, -1)
  else do
    match ← .single .name with
    | none => pure ({}, -1)
    | some alg => do
      let timeHigh ← uint16Read
      let timeLow ← uint32Read
      let fudge ← uint16Read
      let sigLen ← uint16Read
      let tsig : RdataTsig :=
        { alg := some alg, timeSigned := timeHigh * 2 ^ 32 + timeLow, fudge, sigLen }
      if ← dlenCheck sigLen then pure (tsig, -1)
      else
        let signature ← if sigLen ≠ 0 then .single (.bytes sigLen) else pure none
        let origId ← uint16Read
        let error ← uint16Read
        let otherLen ← uint16Read
        let tsig := { tsig with signature, origId, error, otherLen }
        if ← dlenCheck otherLen then pure (tsig, -1)
        else
          let other ← if otherLen ≠ 0 then .single (.bytes otherLen) else pure none
          pure ({ tsig with other }, 0)

/-- The `switch` on the gateway type; a name that cannot be parsed is not an error. -/
def gatewayParse (ipseckey : RdataIpseckey) : RdataProgram RdataIpseckey :=
  match ipseckey.gatewayType with
  | 1 => do
    let inAddr ← uint32Read
    pure { ipseckey with inAddr }
  | 2 => do
    let in6Addr ← .single .in6Addr
    pure { ipseckey with in6Addr }
  | 3 => do
    let gateway ← .single .name
    pure { ipseckey with gateway }
  | _ => pure ipseckey

def rdataIpseckeyParse (dlen : ℕ) : RdataProgram (RdataIpseckey × ℤ) :=
  if dlen < 3 then pure ({}, -1)
  else do
    let precedence ← uint8Read
    let gatewayType ← uint8Read
    let alg ← uint8Read
    let ipseckey ← gatewayParse { precedence, gatewayType, alg }
    let rdlen ← .single .rdlen
    let keyLen := rdlen % 2 ^ 16
    let ipseckey := { ipseckey with keyLen }
    if ← dlenCheck keyLen then pure (ipseckey, -1)
    else
      let key ← .single .rbytes
      pure ({ ipseckey with key }, 0)

def txtBaseParse : ℕ → RdataProgram (List (List UInt8))
  | 0 => pure []
  | fuel + 1 => do
    if ← .single (.readOver 1) then pure []
    else
      match ← .single .bstringDup with
      | none => pure []
      | some txt => do
        let txts ← txtBaseParse fuel
        pure (txt :: txts)

def rdataTxtParse (dlen : ℕ) : RdataProgram (List (List UInt8) × ℤ) :=
  if dlen = 0 then pure ([], -1)
  else do
    let txts ← txtBaseParse dlen
    pure (txts, 0)

inductive RdataKind
  | opt
  | apl
  | nsec3
  | tsig
  | ipseckey
  | txt

/-- The fields of a record of the kind and the return value of its parser. -/
def rdataParse (kind : RdataKind) (dlen : ℕ) : RdataProgram (RdataFields × ℤ) :=
  match kind with
  | .opt => do
    let (entries, rc) ← rdataOptParse dlen
    pure (.opt entries, rc)
  | .apl => do
    let (entries, rc) ← rdataAplParse dlen
    pure (.apl entries, rc)
  | .nsec3 => do
    let (rdata, rc) ← rdataNsec3Parse dlen
    pure (.nsec3 rdata, rc)
  | .tsig => do
    let (rdata, rc) ← rdataTsigParse dlen
    pure (.tsig rdata, rc)
  | .ipseckey => do
    let (rdata, rc) ← rdataIpseckeyParse dlen
    pure (.ipseckey rdata, rc)
  | .txt => do
    let (txts, rc) ← rdataTxtParse dlen
    pure (.txt txts, rc)

section Fuel

open RdataInput ReadCall

variable {residue : ℕ → ℕ → UInt8} {din din' din'' : RdataInput}

structure Forward (din din' : RdataInput) : Prop where
  le : din.pos ≤ din'.pos
  inside : din'.pos ≤ din'.last
  last : din'.last = din.last

theorem Forward.trans (h : Forward din din') (h' : Forward din' din'') : Forward din din'' :=
  ⟨h.le.trans h'.le, h'.inside, h'.last.trans h.last⟩

theorem forward_uint (h : din.pos ≤ din.last) (width : ℕ) : Forward din (uintRead width din).2 := by
  by_cases hover : din.last < din.pos + width
  · rw [uintRead, readOver_of_lt hover, if_pos rfl]
    exact ⟨le_rfl, h, rfl⟩
  · rw [uintRead, readOver_of_le (not_lt.1 hover), if_neg (by simp)]
    exact ⟨Nat.le_add_right _ _, not_lt.1 hover, rfl⟩

theorem forward_bytes (h : din.pos ≤ din.last) (n : ℕ) : Forward din (bytesRead n din).2 := by
  have hmin : (if din.rdlen < n then din.rdlen else n) ≤ din.last - din.pos := by
    rw [rdlen_eq h]
    split <;> omega
  simp only [bytesRead]
  generalize (if din.rdlen < n then din.rdlen else n) = r at hmin
  split
  · exact ⟨le_rfl, h, rfl⟩
  · refine ⟨Nat.le_add_right _ _, ?_, rfl⟩
    simp only [posUpdate]
    omega

theorem optEntryCreate_forward {entry : OptEntry} (h : din.pos ≤ din.last)
    (hentry : (optEntryCreate.run (ReadCall.run residue) din).1 = some entry) :
    Forward (uintRead 2 din).2 (optEntryCreate.run (ReadCall.run residue) din).2 := by
  have hcode := forward_uint h 2
  have hdlen := forward_uint hcode.inside 2
  rw [optEntryCreate, Calls.run_bind, Calls.run_bind, Calls.run_bind, Calls.run_ite] at hentry ⊢
  split at hentry
  next => cases hentry
  next hfits =>
    rw [if_neg hfits]
    exact hdlen.trans (forward_bytes hdlen.inside _)

theorem aplEntryCreate_forward {entry : AplEntry} (h : din.pos ≤ din.last)
    (hentry : (aplEntryCreate.run (ReadCall.run residue) din).1 = some entry) :
    Forward (uintRead 2 din).2 (aplEntryCreate.run (ReadCall.run residue) din).2 := by
  have hfamily := forward_uint h 2
  have hpfx := forward_uint hfamily.inside 1
  have hv := hpfx.trans (forward_uint hpfx.inside 1)
  rw [aplEntryCreate, Calls.run_bind, Calls.run_bind, Calls.run_bind, Calls.run_bind, Calls.run_ite]
    at hentry ⊢
  split at hentry
  next => cases hentry
  next hfits =>
    rw [if_neg hfits]
    exact hv.trans (forward_bytes hv.inside _)

theorem run_entriesParse {ε : Type} (entryCreate : RdataProgram (Option ε)) (fuel : ℕ) :
    (entriesParse entryCreate (fuel + 1)).run (ReadCall.run residue) din =
      if din.rdlen < 4 then ([], din)
      else
        match entryCreate.run (ReadCall.run residue) din with
        | (none, din) => ([], din)
        | (some entry, din) =>
          let (entries, din) := (entriesParse entryCreate fuel).run (ReadCall.run residue) din
          (entry :: entries, din) := by
  change (Calls.run _ (_ >>= _) din) = _
  rw [Calls.run_bind, Calls.run_ite]
  refine ite_congr rfl (fun _ => rfl) fun _ => ?_
  rw [Calls.run_bind]
  dsimp only [Calls.run_single, ReadCall.run]
  cases (entryCreate.run (ReadCall.run residue) din) with
  | mk entry din =>
    cases entry with
    | none => rfl
    | some entry =>
      dsimp only
      rw [Calls.run_bind]
      rfl

theorem entriesParse_more {ε : Type} {entryCreate : RdataProgram (Option ε)}
    (hcreate : ∀ {din entry}, din.pos ≤ din.last →
      (entryCreate.run (ReadCall.run residue) din).1 = some entry →
      Forward (uintRead 2 din).2 (entryCreate.run (ReadCall.run residue) din).2)
    {fuel : ℕ} (h : din.pos ≤ din.last) (hfuel : din.last - din.pos ≤ fuel) :
    (entriesParse entryCreate (fuel + 1)).run (ReadCall.run residue) din =
      (entriesParse entryCreate fuel).run (ReadCall.run residue) din := by
  induction fuel generalizing din with
  | zero =>
    have hshort : din.rdlen < 4 := by
      rw [rdlen_eq h]
      omega
    rw [run_entriesParse, if_pos hshort]
    rfl
  | succ fuel ih =>
    rw [run_entriesParse, run_entriesParse]
    refine ite_congr rfl (fun _ => rfl) fun hlong => ?_
    have hforward := fun entry => @hcreate din entry h
    rw [rdlen_eq h] at hlong
    generalize entryCreate.run (ReadCall.run residue) din = read at hforward
    obtain ⟨entry, din'⟩ := read
    cases entry with
    | none => rfl
    | some entry =>
      have hentry := hforward entry rfl
      have hfirst : (uintRead 2 din).2 = din.posUpdate 2 := by
        rw [uintRead, readOver_of_le (by omega), if_neg (by simp)]
      rw [hfirst] at hentry
      have hlast : din'.last = din.last := hentry.last
      have hle : din.pos + 2 ≤ din'.pos := hentry.le
      have hinside : din'.pos ≤ din'.last := hentry.inside
      dsimp only
      rw [ih hinside (by omega)]

theorem run_txtBaseParse (fuel : ℕ) :
    (txtBaseParse (fuel + 1)).run (ReadCall.run residue) din =
      if din.readOver 1 then ([], din)
      else
        match bstringReadDup din with
        | (none, din) => ([], din)
        | (some txt, din) =>
          let (txts, din) := (txtBaseParse fuel).run (ReadCall.run residue) din
          (txt :: txts, din) := by
  change (Calls.run _ (_ >>= _) din) = _
  rw [Calls.run_bind, Calls.run_ite]
  refine ite_congr rfl (fun _ => rfl) fun _ => ?_
  rw [Calls.run_bind]
  dsimp only [Calls.run_single, ReadCall.run]
  cases bstringReadDup din with
  | mk txt din =>
    cases txt with
    | none => rfl
    | some txt =>
      dsimp only
      rw [Calls.run_bind]
      rfl

theorem txtBaseParse_more {fuel : ℕ} (hfuel : din.last - din.pos ≤ fuel) :
    (txtBaseParse (fuel + 1)).run (ReadCall.run residue) din =
      (txtBaseParse fuel).run (ReadCall.run residue) din := by
  induction fuel generalizing din with
  | zero =>
    have hover := readOver_of_lt (show din.last < din.pos + 1 by omega)
    rw [run_txtBaseParse, if_pos hover]
    rfl
  | succ fuel ih =>
    rw [run_txtBaseParse, run_txtBaseParse]
    refine ite_congr rfl (fun _ => rfl) fun hin => ?_
    have hinside : din.pos + 1 ≤ din.last := by
      by_contra hover
      exact hin (readOver_of_lt (not_le.1 hover))
    have hread : ∃ k, bstringReadDup din =
        (some (din.mem.read (din.pos + 1) k), din.posUpdate (1 + k)) := by
      simp only [bstringReadDup, readOver_of_le hinside, uintRead_one hinside, Bool.false_eq_true,
        if_false]
      exact ⟨_, Prod.ext rfl (congrArg (RdataInput.mk din.mem · din.last) (Nat.add_assoc _ _ _))⟩
    obtain ⟨k, hread⟩ := hread
    rw [hread]
    dsimp only
    rw [ih]
    simp only [posUpdate]
    omega

/-- The loops end before their fuel does: more of it gives the same entries. -/
structure LoopsEnd (residue : ℕ → ℕ → UInt8) (din : RdataInput) (fuel : ℕ) : Prop where
  opt : ∀ more, (entriesParse optEntryCreate (fuel + more)).run (ReadCall.run residue) din =
    (entriesParse optEntryCreate fuel).run (ReadCall.run residue) din
  apl : ∀ more, (entriesParse aplEntryCreate (fuel + more)).run (ReadCall.run residue) din =
    (entriesParse aplEntryCreate fuel).run (ReadCall.run residue) din
  txt : ∀ more, (txtBaseParse (fuel + more)).run (ReadCall.run residue) din =
    (txtBaseParse fuel).run (ReadCall.run residue) din

theorem loopsEnd {fuel : ℕ} (h : din.pos ≤ din.last) (hfuel : din.last - din.pos ≤ fuel) :
    LoopsEnd residue din fuel := by
  have hmore {β : Type} (f : ℕ → β) (hf : ∀ n, fuel ≤ n → f (n + 1) = f n) (more : ℕ) :
      f (fuel + more) = f fuel := by
    induction more with
    | zero => rfl
    | succ more ih => exact (hf _ (Nat.le_add_right fuel more)).trans ih
  let run {α : Type} (p : ℕ → RdataProgram α) (n : ℕ) := (p n).run (ReadCall.run residue) din
  refine ⟨hmore (run (entriesParse optEntryCreate)) fun n hn => ?_,
    hmore (run (entriesParse aplEntryCreate)) fun n hn => ?_,
    hmore (run txtBaseParse) fun n hn => ?_⟩
  · exact entriesParse_more optEntryCreate_forward h (hfuel.trans hn)
  · exact entriesParse_more aplEntryCreate_forward h (hfuel.trans hn)
  · exact txtBaseParse_more (hfuel.trans hn)

end Fuel

/-- The reads of any program over a record are right, and inside the record, exactly when the
record holds what every read of the run asks for; then the fields of each kind of record are
the ones that stand in it. The loops over entries and texts never run out of fuel. -/
theorem rdata_reads_right_iff (residue : ℕ → ℕ → UInt8) (mem : Memory) (data dlen : ℕ) :
    (∀ {α : Type} (p : RdataProgram α),
      ReadsRight residue p (rdataInputInit mem data dlen) ↔
        p.Along (ReadCall.run residue) ReadCall.Fits (rdataInputInit mem data dlen)) ∧
    (∀ kind,
      (rdataParse kind dlen).Along (ReadCall.run residue) ReadCall.Fits
      (rdataInputInit mem data dlen) →
        (rdataParse kind dlen).run (ReadCall.run residue) (rdataInputInit mem data dlen) =
          (rdataParse kind dlen).run (ReadCall.slice residue) (rdataInputInit mem data dlen)) ∧
    LoopsEnd residue (rdataInputInit mem data dlen) dlen := by
  have hinside : (rdataInputInit mem data dlen).pos ≤ (rdataInputInit mem data dlen).last :=
    Nat.le_add_right data dlen
  have hleft : (rdataInputInit mem data dlen).last - (rdataInputInit mem data dlen).pos ≤ dlen :=
    (Nat.add_sub_cancel_left data dlen).le
  exact ⟨fun p => readsRight_iff hinside, fun kind hfits =>
    ((readsRight_iff hinside).2 hfits).values,
    loopsEnd hinside hleft⟩

def repeatedOption : Memory := fun a => [0, 3, 0, 1, 7, 7].getD a 0

theorem repeatedOption_right :
    ReadsRight (fun _ _ => 0) (rdataParse .opt 6) (rdataInputInit repeatedOption 0 6) ∧
      ((rdataParse .opt 6).run (ReadCall.run fun _ _ => 0) (rdataInputInit repeatedOption 0 6)).1 =
        (.opt [⟨3, 1, some [7]⟩], 0) := by
  obtain ⟨hright, hvalues, -⟩ := rdata_reads_right_iff (fun _ _ => 0) repeatedOption 0 6
  have hfits : (rdataParse .opt 6).Along (ReadCall.run fun _ _ => 0) ReadCall.Fits
      (rdataInputInit repeatedOption 0 6) := by
    decide +kernel
  refine ⟨(hright _).2 hfits, ?_⟩
  rw [hvalues .opt hfits]
  decide +kernel

def shiftedOption : Memory := fun a => [0, 3, 0, 1, 7, 9].getD a 0

theorem shiftedOption_not_right :
    ¬ ∀ residue mem data dlen kind,
      ReadsRight residue (rdataParse kind dlen) (rdataInputInit mem data dlen) := by
  intro h
  have hvalues := congrArg Prod.fst (h (fun _ _ => 0) shiftedOption 0 5 .opt).values
  have hread :
      ((rdataParse .opt 5).run (ReadCall.run fun _ _ => 0) (rdataInputInit shiftedOption 0 5)).1 =
      (.opt [⟨3, 1, some [9]⟩], 0) := by decide +kernel
  have hwire :
      ((rdataParse .opt 5).run (ReadCall.slice fun _ _ => 0) (rdataInputInit shiftedOption 0 5)).1 =
      (.opt [⟨3, 1, some [7]⟩], 0) := by decide +kernel
  rw [hread, hwire] at hvalues
  exact absurd hvalues (by decide)

end CloudHands.Dns
