import CloudHands.Wb.Content

/-!
# What an address entry matches, and what a rejected add leaves

An entry matches by its two ranges and its netmask, and a netmask of leading ones adds
nothing to the range. A rejected add has stored an id in the free slot by then. No
operation reads that slot before the next add stores its own id there, so the list goes
on as if only the id had been used up.
-/

namespace CloudHands.Wb

open Lib

namespace IpValue

def InRange (v : IpValue) (ip : UInt32) : Prop :=
  v.ipStart.toNat ≤ ip.toNat ∧ ip.toNat ≤ v.ipEnd.toNat

def HasIp (v : IpValue) (ip : UInt32) : Prop :=
  (v.ipStart = 0 ∧ v.ipEnd = 0) ∨
    (v.InRange ip ∧ netMaskAnd ip v.netmask = netMaskAnd v.ipStart v.netmask)

def HasPort (v : IpValue) (port : UInt16) : Prop :=
  (v.portStart = 0 ∧ v.portEnd = 0) ∨
    (v.portStart.toNat ≤ port.toNat ∧ port.toNat ≤ v.portEnd.toNat)

theorem isMatch_iff (v : IpValue) (mv : IpMatchValue) :
    v.isMatch mv = true ↔ v.HasIp mv.ip ∧ v.HasPort mv.port := by
  have hip : (if v.ipStart != 0 || v.ipEnd != 0 then
      if netMaskAnd v.ipStart v.netmask != netMaskAnd mv.ip v.netmask then false
      else decide (v.ipStart ≤ mv.ip) && decide (mv.ip ≤ v.ipEnd)
    else true) = true ↔ v.HasIp mv.ip := by
    unfold HasIp InRange
    split_ifs with hbounds hmask
    · simp only [Bool.or_eq_true, bne_iff_ne] at hbounds hmask
      constructor
      · intro hfalse
        cases hfalse
      · rintro (⟨hstart, hend⟩ | ⟨-, hsame⟩)
        · simp [hstart, hend] at hbounds
        · exact absurd hsame.symm hmask
    · simp only [Bool.or_eq_true, bne_iff_ne, not_not] at hbounds hmask
      rw [Bool.and_eq_true, decide_eq_true_iff, decide_eq_true_iff, UInt32.le_iff_toNat_le,
        UInt32.le_iff_toNat_le]
      constructor
      · intro hrange
        exact .inr ⟨hrange, hmask.symm⟩
      · rintro (⟨hstart, hend⟩ | ⟨hrange, -⟩)
        · simp [hstart, hend] at hbounds
        · exact hrange
    · have hzero : v.ipStart = 0 ∧ v.ipEnd = 0 := by simpa using hbounds
      simp [hzero]
  have hport : (if v.portStart != 0 || v.portEnd != 0 then
      decide (v.portStart ≤ mv.port) && decide (mv.port ≤ v.portEnd)
    else true) = true ↔ v.HasPort mv.port := by
    unfold HasPort
    split_ifs with hbounds
    · have hne : ¬(v.portStart = 0 ∧ v.portEnd = 0) := by
        rintro ⟨hstart, hend⟩
        simp [hstart, hend] at hbounds
      rw [Bool.and_eq_true, decide_eq_true_iff, decide_eq_true_iff, UInt16.le_iff_toNat_le,
        UInt16.le_iff_toNat_le, or_iff_right hne]
    · have hzero : v.portStart = 0 ∧ v.portEnd = 0 := by simpa using hbounds
      simp [hzero]
  unfold IpValue.isMatch
  dsimp only
  rw [Bool.and_eq_true, hip, hport]

end IpValue

theorem listIpAdd_accepts {size : ℕ} {v : IpValue} {bs : List UInt8}
    (h : listIpAdd size v = some bs) : v.ipStart.toNat ≤ v.ipEnd.toNat ∧
      v.portStart.toNat ≤ v.portEnd.toNat ∧
      netMaskAnd v.ipStart v.netmask = netMaskAnd v.ipEnd v.netmask := by
  unfold listIpAdd at h
  split_ifs at h with hbounds hmask
  rw [Bool.or_eq_true, decide_eq_true_iff, decide_eq_true_iff, not_or] at hbounds
  refine ⟨?_, ?_, by simpa using hmask⟩
  · exact UInt32.le_iff_toNat_le.1 (UInt32.not_lt.1 hbounds.1)
  · exact UInt16.le_iff_toNat_le.1 (UInt16.not_lt.1 hbounds.2)

/-- All bits from bit `k` on, and none below. -/
def LeadingOnes (netmask : UInt32) : Prop := ∃ k ≤ 32, netmask.toNat + 2 ^ k = 2 ^ 32

theorem toNat_netMaskAnd {x netmask : UInt32} {k : ℕ} (hk : k ≤ 32)
    (h : netmask.toNat + 2 ^ k = 2 ^ 32) :
    (netMaskAnd x netmask).toNat = 2 ^ k * (x.toNat / 2 ^ k) := by
  have hmask : netmask.toNat = 2 ^ k * (2 ^ (32 - k) - 1) := by
    have hpow : 2 ^ k * 2 ^ (32 - k) = 2 ^ 32 := by rw [← pow_add, Nat.add_sub_cancel' hk]
    rw [Nat.mul_sub_one, hpow, ← h, Nat.add_sub_cancel]
  apply Nat.eq_of_testBit_eq
  intro i
  rw [netMaskAnd, UInt32.toNat_and, Nat.testBit_and, hmask, Nat.testBit_two_pow_mul,
    Nat.testBit_two_pow_mul, Nat.testBit_two_pow_sub_one, Nat.testBit_div_two_pow]
  by_cases hki : k ≤ i
  · rw [Nat.sub_add_cancel hki]
    by_cases hi : i < 32
    · have hlt : i - k < 32 - k := by omega
      simp [hki, hlt]
    · have hbit : x.toNat.testBit i = false := by
        apply Nat.testBit_lt_two_pow
        exact lt_of_lt_of_le x.toNat_lt (Nat.pow_le_pow_right (by norm_num) (by omega))
      simp [hbit]
  · simp [hki]

theorem sameNet_of_inRange {v : IpValue} (hones : LeadingOnes v.netmask)
    (hends : netMaskAnd v.ipStart v.netmask = netMaskAnd v.ipEnd v.netmask) {ip : UInt32}
    (hrange : v.InRange ip) : netMaskAnd ip v.netmask = netMaskAnd v.ipStart v.netmask := by
  obtain ⟨k, hk, hmask⟩ := hones
  have hquot := congrArg UInt32.toNat hends
  rw [toNat_netMaskAnd hk hmask, toNat_netMaskAnd hk hmask] at hquot
  have hquot' : v.ipStart.toNat / 2 ^ k = v.ipEnd.toNat / 2 ^ k :=
    Nat.eq_of_mul_eq_mul_left (by positivity) hquot
  have hlow : v.ipStart.toNat / 2 ^ k ≤ ip.toNat / 2 ^ k := Nat.div_le_div_right hrange.1
  have hhigh : ip.toNat / 2 ^ k ≤ v.ipEnd.toNat / 2 ^ k := Nat.div_le_div_right hrange.2
  apply UInt32.toNat.inj
  rw [toNat_netMaskAnd hk hmask, toNat_netMaskAnd hk hmask]
  congr 1
  omega

theorem hasIp_of_leadingOnes {size : ℕ} {v : IpValue} {bs : List UInt8}
    (h : listIpAdd size v = some bs) (hones : LeadingOnes v.netmask) (ip : UInt32) :
    v.HasIp ip ↔ (v.ipStart = 0 ∧ v.ipEnd = 0) ∨ v.InRange ip := by
  obtain ⟨-, -, hends⟩ := listIpAdd_accepts h
  apply or_congr_right
  constructor
  · exact And.left
  · intro hrange
    exact ⟨hrange, sameNet_of_inRange hones hends hrange⟩

theorem hasIp_bounds {size : ℕ} {v : IpValue} {bs : List UInt8}
    (h : listIpAdd size v = some bs) : v.HasIp v.ipStart ∧ v.HasIp v.ipEnd := by
  obtain ⟨hle, -, hends⟩ := listIpAdd_accepts h
  exact ⟨.inr ⟨⟨le_rfl, hle⟩, rfl⟩, .inr ⟨⟨hle, le_rfl⟩, hends.symm⟩⟩

/-- The lists are the same but for the id of slot `k`, which is behind the last entry. -/
def Twin (size k : ℕ) (l l' : WbList) : Prop :=
  l = l' ∨ (l.entrySize = size ∧ l.freeEntryPos ≤ k ∧
    ∃ mem, l' = { l with mem := mem } ∧ Memory.AgreeOff (k * size) 8 l.mem mem)

section Twin

variable {V M : Type} {kind : EntryKind V M} {l l' : WbList} {mem : Memory} {size k : ℕ}

theorem walk_congr (hsize : l'.entrySize = l.entrySize) (hfree : l'.freeEntryPos = l.freeEntryPos)
    (hend : l'.endPos = l.endPos) (fuel entry : ℕ) : l'.walk fuel entry = l.walk fuel entry := by
  induction fuel generalizing entry with
  | zero => rfl
  | succ fuel ih =>
    have hnext : l'.entryNext entry = l.entryNext entry := by
      simp only [WbList.entryNext, WbList.entryGet, hsize, hfree, hend]
    simp only [WbList.walk, hnext, ih]

theorem forEachEntry_congr (hsize : l'.entrySize = l.entrySize)
    (hfree : l'.freeEntryPos = l.freeEntryPos) (hend : l'.endPos = l.endPos) :
    l'.forEachEntry = l.forEachEntry := by
  simp only [WbList.forEachEntry, WbList.entryFirst, hfree, hend, walk_congr hsize hfree hend]

theorem idAt_of_agreeOff (hsize : 8 ≤ l.entrySize)
    (hagree : Memory.AgreeOff (k * l.entrySize) 8 l.mem mem) {i : ℕ} (hi : i < k) :
    WbList.idAt { l with mem := mem } (i * l.entrySize) = l.idAt (i * l.entrySize) := by
  have hend := slot_end_le hi l.entrySize
  simp only [WbList.idAt]
  rw [hagree.read (.inl (by omega))]

theorem entriesMove_twin (hsize : 8 ≤ l.entrySize) (hfree : l.freeEntryPos ≤ k)
    (hagree : Memory.AgreeOff (k * l.entrySize) 8 l.mem mem) (fuel i : ℕ) :
    ∃ mem₁ mem₂, WbList.entriesMove fuel l (i * l.entrySize) = { l with mem := mem₁ } ∧
      WbList.entriesMove fuel { l with mem := mem } (i * l.entrySize) = { l with mem := mem₂ } ∧
      Memory.AgreeOff (k * l.entrySize) 8 mem₁ mem₂ := by
  induction fuel generalizing l mem i with
  | zero => exact ⟨l.mem, mem, rfl, rfl, hagree⟩
  | succ fuel ih =>
    have hsame : WbList.entryNext { l with mem := mem } (i * l.entrySize) =
        l.entryNext (i * l.entrySize) := rfl
    unfold WbList.entriesMove
    rw [hsame]
    cases hnext : l.entryNext (i * l.entrySize) with
    | none => exact ⟨l.mem, mem, rfl, rfl, hagree⟩
    | some nextEntry =>
      obtain ⟨rfl, hlt⟩ := entryNext_eq_some hnext
      dsimp only
      rw [idAt_of_agreeOff hsize hagree (by omega)]
      let l₁ : WbList :=
        { l with
          mem := l.mem.write (i * l.entrySize) (littleEndian 8 (l.idAt ((i + 1) * l.entrySize))) }
      exact @ih l₁ _ hsize hfree (hagree.write _ _) (i + 1)

theorem findEntry_twin (hsize : 8 ≤ l.entrySize) (hfree : l.freeEntryPos ≤ k)
    (hagree : Memory.AgreeOff (k * l.entrySize) 8 l.mem mem) (id : ℕ) :
    WbList.findEntry { l with mem := mem } id = l.findEntry id := by
  have hwalk : WbList.forEachEntry { l with mem := mem } = l.forEachEntry :=
    forEachEntry_congr rfl rfl rfl
  unfold WbList.findEntry
  rw [hwalk]
  apply List.find?_congr
  intro entry hmem
  obtain ⟨i, hi, rfl⟩ := mem_forEachEntry hmem
  rw [idAt_of_agreeOff hsize hagree (by omega)]

theorem Twin.del (hsize : 8 ≤ size) (h : Twin size k l l') (id : ℕ) :
    Twin size k (l.del id) (l'.del id) := by
  obtain rfl | ⟨rfl, hfree, mem, rfl, hagree⟩ := h
  · exact .inl rfl
  · have hempty : WbList.empty { l with mem := mem } = l.empty := rfl
    unfold WbList.del
    rw [hempty, findEntry_twin hsize hfree hagree]
    split_ifs
    · exact .inr ⟨rfl, hfree, mem, rfl, hagree⟩
    · cases hfind : l.findEntry id with
      | none => exact .inr ⟨rfl, hfree, mem, rfl, hagree⟩
      | some entry =>
        obtain ⟨i, -, rfl⟩ := mem_forEachEntry (List.mem_of_find?_eq_some hfind)
        obtain ⟨mem₁, mem₂, hmove, hmove', hagree'⟩ :=
          entriesMove_twin hsize hfree hagree (l.endPos + 1) i
        dsimp only
        rw [hmove, hmove']
        exact .inr ⟨rfl, (Nat.sub_le _ 1).trans hfree, mem₂, rfl, hagree'⟩

theorem entryGet_eq_some {n entry : ℕ} (hword : n * l.entrySize < 2 ^ 32)
    (h : l.entryGet n = some entry) : entry = n * l.entrySize ∧ entry < l.endPos := by
  unfold WbList.entryGet at h
  dsimp only at h
  split_ifs at h with hend
  rw [Nat.mod_eq_of_lt hword] at h hend
  exact Option.some.inj h ▸ ⟨rfl, Nat.lt_of_not_le hend⟩

theorem add_fst {entry : ℕ} (h : l.entryGet l.freeEntryPos = some entry) (v : V) :
    (l.add kind v).map Prod.fst =
      (l.allocId.2.store entry (littleEndian 8 l.nextId)).bind fun l =>
        match kind.add l.entrySize v with
        | none => some l
        | some bs => (l.store (entry + 8) bs).map fun l =>
          { l with freeEntryPos := (l.freeEntryPos + 1) % 2 ^ 32 } := by
  simp only [WbList.add, h, WbList.allocId]
  cases WbList.store _ entry (littleEndian 8 l.nextId) with
  | none => rfl
  | some l =>
    dsimp only [Option.bind_some]
    cases kind.add l.entrySize v with
    | none => rfl
    | some bs =>
      dsimp only
      rw [Option.map_map]
      rfl

theorem twin_self (s : Option WbList) : Option.Rel (Twin size k) s s := by
  cases s with
  | none => exact .none
  | some l => exact .some (.inl rfl)

/-- An add fills a slot before `k`, or it stores the id of slot `k` anew. -/
theorem Twin.add (hword : k * size < 2 ^ 32) (h : Twin size k l l') (v : V) :
    Option.Rel (Twin size k) ((l.add kind v).map Prod.fst) ((l'.add kind v).map Prod.fst) := by
  obtain rfl | ⟨rfl, hfree, mem, rfl, hagree⟩ := h
  · exact twin_self _
  · have hget : WbList.entryGet { l with mem := mem } l.freeEntryPos =
        l.entryGet l.freeEntryPos := rfl
    have hslot := Nat.mul_le_mul_right l.entrySize hfree
    cases hentry : l.entryGet l.freeEntryPos with
    | none =>
      simp only [WbList.add, hget, hentry]
      exact .some (.inr ⟨rfl, hfree, mem, rfl, hagree⟩)
    | some entry =>
      obtain ⟨rfl, -⟩ := entryGet_eq_some (by omega) hentry
      rw [add_fst hentry, add_fst (hget.trans hentry)]
      simp only [WbList.allocId, WbList.store, length_littleEndian]
      by_cases hfault : l.endPos < l.freeEntryPos * l.entrySize + 8
      · simp only [hfault, if_true, Option.bind_none]
        exact .none
      simp only [hfault, if_false, Option.bind_some]
      obtain hlt | rfl := Nat.lt_or_eq_of_le hfree
      · have hagree' := hagree.write (l.freeEntryPos * l.entrySize) (littleEndian 8 l.nextId)
        cases hbytes : kind.add l.entrySize v with
        | none => exact .some (.inr ⟨rfl, hfree, _, rfl, hagree'⟩)
        | some bs =>
          by_cases hfault' : l.endPos < l.freeEntryPos * l.entrySize + 8 + bs.length
          · simp only [hfault', if_true, Option.map_none]
            exact .none
          · simp only [hfault', if_false, Option.map_some]
            have hnext := (Nat.mod_le (l.freeEntryPos + 1) (2 ^ 32)).trans hlt
            exact .some (.inr ⟨rfl, hnext, _, rfl, hagree'.write _ bs⟩)
      · have hmem : l.mem.write (l.freeEntryPos * l.entrySize) (littleEndian 8 l.nextId) =
            mem.write (l.freeEntryPos * l.entrySize) (littleEndian 8 l.nextId) := by
          apply Memory.AgreeOff.write_self
          rwa [length_littleEndian]
        rw [hmem]
        exact twin_self _

theorem Twin.step (hsize : 8 ≤ size) (hword : k * size < 2 ^ 32) {s s' : Option WbList}
    (h : Option.Rel (Twin size k) s s') (op : Op V) :
    Option.Rel (Twin size k) (step kind s op) (step kind s' op) := by
  cases h with
  | none => exact twin_self _
  | some h =>
    cases op with
    | add v => exact h.add hword v
    | del id => exact .some (h.del hsize id)
    | isOnSet v =>
      obtain rfl | ⟨hentry, hfree, mem, rfl, hagree⟩ := h
      · exact twin_self _
      · exact .some (.inr ⟨hentry, hfree, mem, rfl, hagree⟩)

theorem Twin.run (hsize : 8 ≤ size) (hword : k * size < 2 ^ 32) (h : Twin size k l l')
    (ops : List (Op V)) :
    Option.Rel (Twin size k) (ops.foldl (CloudHands.Wb.step kind) (some l))
      (ops.foldl (CloudHands.Wb.step kind) (some l')) := by
  apply List.foldl_rel (.some h)
  intro op _ s s' hrel
  exact Twin.step hsize hword hrel op

end Twin

theorem ipEntry_of_agreeOff {p a : ℕ} {mem mem' : Memory} (h : Memory.AgreeOff p 8 mem mem')
    (ha : a + 16 ≤ p) : ipEntry mem' a = ipEntry mem a := by
  unfold ipEntry
  rw [h.read (.inl (by omega)), h.read (.inl (by omega)), h.read (.inl (by omega)),
    h.read (.inl (by omega)), h.read (.inl (by omega))]

theorem Twin.isMatch {k : ℕ} {l l' : WbList} (h : Twin 24 k l l') (mv : IpMatchValue) :
    l'.isMatch ipKind mv = l.isMatch ipKind mv := by
  obtain rfl | ⟨hentry, hfree, mem, rfl, hagree⟩ := h
  · rfl
  · have hempty : WbList.empty { l with mem := mem } = l.empty := rfl
    have hwalk : WbList.forEachEntry { l with mem := mem } = l.forEachEntry :=
      forEachEntry_congr rfl rfl rfl
    have hany : (l.forEachEntry.any fun entry => listIpIsMatch mem (entry + 8) mv) =
        l.forEachEntry.any fun entry => listIpIsMatch l.mem (entry + 8) mv := by
      rw [Bool.eq_iff_iff, List.any_eq_true, List.any_eq_true]
      apply exists_congr
      intro entry
      apply and_congr_right
      intro hmem
      obtain ⟨i, hi, rfl⟩ := mem_forEachEntry hmem
      rw [hentry, listIpIsMatch, listIpIsMatch, ipEntry_of_agreeOff hagree (by omega)]
    unfold WbList.isMatch
    rw [hempty, hwalk]
    simp only [ipKind, hany]

theorem map_isMatch {k : ℕ} {s s' : Option WbList} (h : Option.Rel (Twin 24 k) s s')
    (mv : IpMatchValue) : s.map (fun l => l.isMatch ipKind mv) =
      s'.map (fun l => l.isMatch ipKind mv) := by
  cases h with
  | none => rfl
  | some h => exact congrArg some (h.isMatch mv).symm

/-- Slots of an address entry each, in whole pages less the header. -/
structure IpList (l : WbList) : Prop where
  entrySize : l.entrySize = 24
  whole : 8 ∣ l.endPos

theorem IpList.init {pgSize msize : ℕ} {l : WbList} (hpage : 8 ∣ pgSize)
    (h : listIpInit pgSize msize = some l) : IpList l := by
  unfold listIpInit WbList.init at h
  dsimp only at h
  split_ifs at h
  rw [← Option.some.inj h]
  exact ⟨rfl, Nat.dvd_sub (dvd_mul_of_dvd_right hpage _) (by norm_num)⟩

theorem store_eq_some {l l' : WbList} {a : ℕ} {bs : List UInt8} (h : l.store a bs = some l') :
    a + bs.length ≤ l.endPos ∧ l' = { l with mem := l.mem.write a bs } := by
  unfold WbList.store at h
  split_ifs at h with hfault
  exact ⟨Nat.le_of_not_lt hfault, (Option.some.inj h).symm⟩

theorem step_sizes {V M : Type} {kind : EntryKind V M} {l l' : WbList} {op : Op V}
    (h : step kind (some l) op = some l') :
    l'.entrySize = l.entrySize ∧ l'.endPos = l.endPos := by
  cases op with
  | add v =>
    simp only [step, Option.bind_some] at h
    cases hentry : l.entryGet l.freeEntryPos with
    | none =>
      simp only [WbList.add, hentry, Option.map_some, Option.some.injEq] at h
      exact h ▸ ⟨rfl, rfl⟩
    | some entry =>
      rw [add_fst hentry] at h
      obtain ⟨l₁, hstore, h⟩ := Option.bind_eq_some_iff.1 h
      obtain ⟨-, rfl⟩ := store_eq_some hstore
      cases hbytes : kind.add l.entrySize v with
      | none =>
        simp only [WbList.allocId, hbytes] at h
        obtain rfl := Option.some.inj h
        exact ⟨rfl, rfl⟩
      | some bs =>
        simp only [WbList.allocId, hbytes] at h
        obtain ⟨l₂, hstore', rfl⟩ := Option.map_eq_some_iff.1 h
        obtain ⟨-, rfl⟩ := store_eq_some hstore'
        exact ⟨rfl, rfl⟩
  | del id =>
    obtain rfl := Option.some.inj h
    dsimp only
    unfold WbList.del
    split_ifs
    · exact ⟨rfl, rfl⟩
    · cases hfind : l.findEntry id with
      | none => exact ⟨rfl, rfl⟩
      | some entry =>
        obtain ⟨mem, hmove⟩ := entriesMove_eq (l.endPos + 1) l entry
        dsimp only
        rw [hmove]
        exact ⟨rfl, rfl⟩
  | isOnSet v =>
    obtain rfl := Option.some.inj h
    exact ⟨rfl, rfl⟩

theorem IpList.run {l l' : WbList} (h : IpList l) (ops : List (Op IpValue))
    (hrun : ops.foldl (step ipKind) (some l) = some l') : IpList l' := by
  have hall : ∀ l₁ ∈ ops.foldl (step ipKind) (some l), IpList l₁ := by
    refine List.foldlRecOn ops (step ipKind) (motive := fun s => ∀ l₁ ∈ s, IpList l₁) ?_ ?_
    · intro l₁ hl₁
      exact Option.some.inj hl₁ ▸ h
    · intro s hs op _ l₁ hl₁
      cases s with
      | none => cases op <;> cases hl₁
      | some l₀ =>
        obtain ⟨hentry, hwhole⟩ := step_sizes hl₁
        have hl₀ := hs l₀ rfl
        exact ⟨hentry.trans hl₀.entrySize, hwhole ▸ hl₀.whole⟩
  exact hall l' hrun

theorem content_of_agreeOff {l : WbList} {mem : Memory} (hentry : l.entrySize = 24)
    (hagree : Memory.AgreeOff (l.freeEntryPos * 24) 8 l.mem mem) :
    WbList.content ipKind { l with mem := mem } = l.content ipKind := by
  unfold WbList.content
  apply List.map_congr_left
  intro i hi
  have hlt : i < l.freeEntryPos := List.mem_range.1 hi
  apply Prod.ext
  · simp only [WbList.entryAt, WbList.idAt]
    rw [hentry, hagree.read (.inl (by omega))]
  · simp only [WbList.entryAt, ipKind]
    rw [hentry, ipEntry_of_agreeOff hagree (by omega)]

theorem rejected_add {l : WbList} (h : IpList l) {v : IpValue}
    (hrejected : l.entryGet l.freeEntryPos = none ∨
      (listIpAdd l.entrySize v = none ∧ l.freeEntryPos * l.entrySize < 2 ^ 32)) :
    ∃ l', l.add ipKind v = some (l', 0) ∧ l'.content ipKind = l.content ipKind ∧
      ∃ k, k * 24 < 2 ^ 32 ∧ Twin 24 k l' { l with nextId := l'.nextId } := by
  cases hentry : l.entryGet l.freeEntryPos with
  | none =>
    refine ⟨l, ?_, rfl, 0, by norm_num, .inl rfl⟩
    simp only [WbList.add, hentry]
  | some entry =>
    obtain hnone | ⟨hbytes, hword⟩ := hrejected
    · rw [hentry] at hnone
      cases hnone
    · obtain ⟨rfl, hend⟩ := entryGet_eq_some hword hentry
      obtain ⟨pages, hpages⟩ := h.whole
      have hsize := h.entrySize
      have hfits : ¬l.endPos < l.freeEntryPos * l.entrySize + 8 := by
        rw [hsize] at hend ⊢
        omega
      have hkind : ipKind.add l.entrySize v = none := hbytes
      simp only [WbList.add, hentry, WbList.allocId, WbList.store, length_littleEndian, hfits,
        if_false, Option.bind_some, hkind]
      have hagree := Memory.agreeOff_write l.mem (l.freeEntryPos * l.entrySize)
        (littleEndian 8 l.nextId)
      rw [length_littleEndian] at hagree
      have hslot : l.freeEntryPos * l.entrySize = l.freeEntryPos * 24 := by rw [hsize]
      refine ⟨_, rfl, ?_, l.freeEntryPos, hslot ▸ hword, ?_⟩
      · exact content_of_agreeOff hsize (hslot ▸ hagree.symm)
      · exact .inr ⟨hsize, le_rfl, l.mem, rfl, hslot ▸ hagree⟩

theorem isMatch_nextId (l : WbList) (id : ℕ) (mv : IpMatchValue) :
    WbList.isMatch ipKind { l with nextId := id } mv = l.isMatch ipKind mv := by
  have hempty : WbList.empty { l with nextId := id } = l.empty := rfl
  have hwalk : WbList.forEachEntry { l with nextId := id } = l.forEachEntry :=
    forEachEntry_congr rfl rfl rfl
  unfold WbList.isMatch
  rw [hempty, hwalk]

theorem add_stores {l l' : WbList} {v : IpValue} {bs : List UInt8} {id entry : ℕ}
    (hentry : l.entryGet l.freeEntryPos = some entry) (hbytes : listIpAdd l.entrySize v = some bs)
    (hadd : l.add ipKind v = some (l', id)) :
    l'.mem.read (entry + 8) v.bytes.length = v.bytes := by
  have hfst : (l.add ipKind v).map Prod.fst = some l' := by rw [hadd, Option.map_some]
  rw [add_fst hentry] at hfst
  obtain ⟨l₁, hstore, h⟩ := Option.bind_eq_some_iff.1 hfst
  obtain ⟨-, rfl⟩ := store_eq_some hstore
  have hkind : ipKind.add l.entrySize v = some bs := hbytes
  simp only [WbList.allocId, hkind] at h
  obtain ⟨l₂, hstore', rfl⟩ := Option.map_eq_some_iff.1 h
  obtain ⟨-, rfl⟩ := store_eq_some hstore'
  rw [listIpAdd_eq_some hbytes]
  exact Memory.read_write _ _ _

theorem listIp_semantics :
    (∀ (l l' : WbList) (v : IpValue) (bs : List UInt8) (id entry : ℕ),
      l.entryGet l.freeEntryPos = some entry → listIpAdd l.entrySize v = some bs →
      l.add ipKind v = some (l', id) →
      ∀ mem : Memory, mem.read (entry + 8) 16 = l'.mem.read (entry + 8) 16 →
        (∀ mv, listIpIsMatch mem (entry + 8) mv = true ↔ v.HasIp mv.ip ∧ v.HasPort mv.port) ∧
        v.HasIp v.ipStart ∧ v.HasIp v.ipEnd ∧
        (LeadingOnes v.netmask →
          ∀ ip, v.HasIp ip ↔ (v.ipStart = 0 ∧ v.ipEnd = 0) ∨ v.InRange ip)) ∧
    (∀ (l : WbList) (v : IpValue), IpList l →
      (l.entryGet l.freeEntryPos = none ∨
        (listIpAdd l.entrySize v = none ∧ l.freeEntryPos * l.entrySize < 2 ^ 32)) →
      ∃ l', l.add ipKind v = some (l', 0) ∧ l'.content ipKind = l.content ipKind ∧
        (∀ mv, l'.isMatch ipKind mv = l.isMatch ipKind mv) ∧
        ∀ (ops : List (Op IpValue)) (mv : IpMatchValue),
          (ops.foldl (step ipKind) (some l')).map (fun l => l.isMatch ipKind mv) =
            (ops.foldl (step ipKind) (some { l with nextId := l'.nextId })).map
              (fun l => l.isMatch ipKind mv)) := by
  constructor
  · intro l l' v bs id entry hentry hbytes hadd mem hmem
    have hread : mem.read (entry + 8) v.bytes.length = v.bytes := by
      have hstored := add_stores hentry hbytes hadd
      have hlength : v.bytes.length = 16 := by simp [IpValue.bytes]
      rw [hlength] at hstored ⊢
      exact hmem.trans hstored
    refine ⟨?_, (hasIp_bounds hbytes).1, (hasIp_bounds hbytes).2, hasIp_of_leadingOnes hbytes⟩
    intro mv
    rw [listIpIsMatch, ipEntry_of_bytes hread]
    exact v.isMatch_iff mv
  · intro l v hlist hrejected
    obtain ⟨l', hadd, hcontent, k, hword, htwin⟩ := rejected_add hlist hrejected
    refine ⟨l', hadd, hcontent, ?_, ?_⟩
    · intro mv
      rw [← htwin.isMatch mv]
      exact isMatch_nextId l l'.nextId mv
    · intro ops mv
      have hrel : Option.Rel (Twin 24 k) (ops.foldl (step ipKind) (some l'))
          (ops.foldl (step ipKind) (some { l with nextId := l'.nextId })) :=
        htwin.run (by norm_num) hword ops
      exact map_isMatch hrel mv

def ipValueNet : IpValue := ⟨0xffffff00, 0x0a000001, 0x0a0000fe, 0, 0⟩

def ipValueInverted : IpValue := ⟨0, 5, 3, 0, 0⟩

theorem listIp_semantics_page :
    let l : WbList := ⟨1, 0, 24, 12345, 4072, fun _ => 0⟩
    ∃ l₁ l₂, l.add ipKind ipValueNet = some (l₁, 12345) ∧
      (∀ mv, listIpIsMatch l₁.mem 8 mv = true ↔
        ipValueNet.HasIp mv.ip ∧ ipValueNet.HasPort mv.port) ∧
      (∀ ip, ipValueNet.HasIp ip ↔ 0x0a000001 ≤ ip.toNat ∧ ip.toNat ≤ 0x0a0000fe) ∧
      l₁.add ipKind ipValueInverted = some (l₂, 0) ∧
      l₂.content ipKind = [(12345, ipValueNet)] := by
  intro l
  have hbytes : listIpAdd l.entrySize ipValueNet = some ipValueNet.bytes := by decide +kernel
  have hadded : (l.add ipKind ipValueNet).map
      (fun p => (p.2, p.1.content ipKind, p.1.freeEntryPos)) =
        some (12345, [(12345, ipValueNet)], 1) := by decide +kernel
  obtain ⟨⟨l₁, id⟩, hadd, heq⟩ := Option.map_eq_some_iff.1 hadded
  obtain ⟨rfl, hcontent, hfree⟩ : id = 12345 ∧ l₁.content ipKind = [(12345, ipValueNet)] ∧
      l₁.freeEntryPos = 1 := by simpa using heq
  have hlist : IpList l := ⟨rfl, by decide⟩
  have hlist₁ : IpList l₁ := by
    apply hlist.run [.add ipValueNet]
    simp only [List.foldl_cons, List.foldl_nil, step, Option.bind_some, hadd, Option.map_some]
  have hentry : l.entryGet l.freeEntryPos = some 0 := by decide
  obtain ⟨hmatch, -, -, hip⟩ :=
    listIp_semantics.1 l l₁ ipValueNet _ 12345 0 hentry hbytes hadd l₁.mem rfl
  have hrejected : listIpAdd l₁.entrySize ipValueInverted = none := by
    rw [hlist₁.entrySize]
    decide
  have hword : l₁.freeEntryPos * l₁.entrySize < 2 ^ 32 := by
    rw [hfree, hlist₁.entrySize]
    norm_num
  obtain ⟨l₂, hadd₂, hcontent₂, -, -⟩ :=
    listIp_semantics.2 l₁ ipValueInverted hlist₁ (.inr ⟨hrejected, hword⟩)
  refine ⟨l₁, l₂, hadd, hmatch, ?_, hadd₂, hcontent₂.trans hcontent⟩
  intro ip
  rw [hip ⟨8, by norm_num, by decide⟩, or_iff_right (by decide)]
  rfl

/-- Netmask 1 takes address 3 out of the range from 2 to 4, and the bounds 0 and 0 take
every address in. -/
theorem range_not_exact :
    (let v : IpValue := ⟨1, 2, 4, 0, 0⟩
      let mem := Memory.write (fun _ => 0) 8 v.bytes
      listIpAdd 24 v = some v.bytes ∧ listIpIsMatch mem 8 ⟨3, 80⟩ = false ∧
        v.ipStart ≤ 3 ∧ 3 ≤ v.ipEnd) ∧
    (let v : IpValue := ⟨0, 0, 0, 0, 0⟩
      let mem := Memory.write (fun _ => 0) 8 v.bytes
      listIpAdd 24 v = some v.bytes ∧ listIpIsMatch mem 8 ⟨3, 80⟩ = true ∧ ¬3 ≤ v.ipEnd) := by
  refine ⟨⟨?_, ?_, ?_, ?_⟩, ⟨?_, ?_, ?_⟩⟩ <;> decide +kernel

end CloudHands.Wb
