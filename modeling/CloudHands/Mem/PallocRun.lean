import CloudHands.Lib.Run
import CloudHands.Mem.Palloc

/-!
# Runs of requests to a memory pool

What callers and the records of the pool have of its chunks never overlaps and stays inside of them,
and every block is given back once.
-/

namespace CloudHands.Mem

open CloudHands.Word (sub sub_of_le)

def Region.Apart (r r' : Region) : Prop :=
  r.chunk = r'.chunk → r.start + r.len ≤ r'.start ∨ r'.start + r'.len ≤ r.start

theorem Region.Apart.symm {r r' : Region} (h : r.Apart r') : r'.Apart r :=
  fun hchunk => (h hchunk.symm).symm

def PoolPtr.regions : PoolPtr → List Region
  | .small r => [r]
  | .large _ => []

def MemPool.places (p : MemPool) : List Region :=
  p.large.map (·.place) ++ p.cleanup.flatMap (·.place.regions)

def headerSize (chunk : ℕ) : ℕ := if chunk = 0 then poolSize else poolDataSize

structure WellFormed (n : ℕ) (p : MemPool) : Prop where
  max_le : p.max + poolSize ≤ n
  current_lt : p.current < p.chunks.length
  chunk : ∀ i c, p.chunks[i]? = some c → headerSize i ≤ c.last ∧ c.last ≤ n ∧ c.dataEnd = n

def Balanced (p : MemPool) (pending : List ℕ) : Prop :=
  (pending ++ p.blocks ++ p.chunks.map (·.block) ++ p.freed).Perm (List.range p.nextBlock)

def Inside (p : MemPool) (r : Region) : Prop :=
  ∃ c, p.chunks[r.chunk]? = some c ∧ headerSize r.chunk ≤ r.start ∧ r.start + r.len ≤ c.last

structure Placed (n : ℕ) (p p' : MemPool) (size : ℕ) (r : Region) : Prop where
  large : p'.large = p.large
  cleanup : p'.cleanup = p.cleanup
  freed : p'.freed = p.freed
  wellFormed : WellFormed n p'
  grown : ∀ (i : ℕ) (c : PoolData), p.chunks[i]? = some c →
    ∃ c' : PoolData, p'.chunks[i]? = some c' ∧ c.last ≤ c'.last
  inside : Inside p' r
  above : ∀ c : PoolData, p.chunks[r.chunk]? = some c → c.last ≤ r.start
  len : r.len = size
  balanced : ∀ {pending}, Balanced p pending → Balanced p' pending

variable {n size : ℕ} {align : Bool} {p p' : MemPool} {r : Region}

theorem Inside.of_placed (h : Placed n p p' size r) {r' : Region} (hinside : Inside p r') :
    Inside p' r' := by
  obtain ⟨c, hc, hheader, hlast⟩ := hinside
  obtain ⟨c', hc', hle⟩ := h.grown _ c hc
  exact ⟨c', hc', hheader, hlast.trans hle⟩

theorem Placed.apart (h : Placed n p p' size r) {r' : Region} (hinside : Inside p r') :
    r.Apart r' := by
  intro hchunk
  obtain ⟨c, hc, -, hlast⟩ := hinside
  exact .inr (hlast.trans (h.above c (hchunk ▸ hc)))

theorem le_alignPtr (m : ℕ) : m ≤ alignPtr m := by
  rw [alignPtr]
  omega

theorem dvd_alignPtr (m : ℕ) : 8 ∣ alignPtr m := Nat.dvd_mul_left 8 _

theorem alignPtr_le {m : ℕ} (hn : 8 ∣ n) (hm : m ≤ n) : alignPtr m ≤ n := by
  rw [alignPtr]
  omega

theorem findPlace_eq_some {i : ℕ} {chunks : List PoolData}
    (h : MemPool.findPlace size align i chunks = some r) :
    i ≤ r.chunk ∧ r.len = size ∧ ∃ c, chunks[r.chunk - i]? = some c ∧
      r.start = (if align then alignPtr c.last else c.last) ∧ size ≤ sub 64 c.dataEnd r.start := by
  induction chunks generalizing i with
  | nil => exact absurd h (Option.some_ne_none r).symm
  | cons c chunks ih =>
    rw [MemPool.findPlace] at h
    split_ifs at h with halign hfits hfits
    · obtain rfl := Option.some.inj h
      exact ⟨le_rfl, rfl, c, by rw [Nat.sub_self]; rfl, by rw [if_pos halign], hfits⟩
    · obtain ⟨hle, hlen, c', hc', hrest⟩ := ih h
      refine ⟨Nat.le_of_succ_le hle, hlen, c', ?_, hrest⟩
      rw [show r.chunk - i = r.chunk - (i + 1) + 1 by omega, List.getElem?_cons_succ]
      exact hc'
    · obtain rfl := Option.some.inj h
      exact ⟨le_rfl, rfl, c, by rw [Nat.sub_self]; rfl, by rw [if_neg halign], hfits⟩
    · obtain ⟨hle, hlen, c', hc', hrest⟩ := ih h
      refine ⟨Nat.le_of_succ_le hle, hlen, c', ?_, hrest⟩
      rw [show r.chunk - i = r.chunk - (i + 1) + 1 by omega, List.getElem?_cons_succ]
      exact hc'

theorem countFailures_spec (i current : ℕ) (chunks : List PoolData)
    (hcurrent : current < i + chunks.length) :
    (MemPool.countFailures i current chunks).1.map (fun c => (c.block, c.last, c.dataEnd)) =
        chunks.map (fun c => (c.block, c.last, c.dataEnd)) ∧
      (MemPool.countFailures i current chunks).2 < i + chunks.length := by
  induction i, current, chunks using MemPool.countFailures.induct with
  | case1 i current => exact ⟨rfl, hcurrent⟩
  | case2 i current c => exact ⟨rfl, hcurrent⟩
  | case3 i current c c' chunks ih =>
    have hnext : (if 4 < c.failed then i + 1 else current) < i + 1 + (c' :: chunks).length := by
      simp only [List.length_cons] at hcurrent ⊢
      split_ifs <;> omega
    obtain ⟨hmap, hlt⟩ := ih hnext
    refine ⟨?_, ?_⟩
    · rw [MemPool.countFailures, List.map_cons, List.map_cons, hmap]
    · rw [MemPool.countFailures, List.length_cons]
      exact hlt.trans_eq (Nat.add_right_comm i 1 _)

theorem headerSize_le (i : ℕ) : headerSize i ≤ poolSize := by
  rw [headerSize]
  split_ifs <;> decide

theorem findPlace_placed (h : WellFormed n p) (hn : 8 ∣ n) (hsize : n < 2 ^ 64)
    (hfind : MemPool.findPlace size align p.current (p.chunks.drop p.current) = some r) :
    Placed n p
      { p with chunks := p.chunks.modify r.chunk fun c => { c with last := r.start + size } }
      size r ∧
      (align = true → 8 ∣ r.start) := by
  obtain ⟨hle, hlen, c, hc, hstart, hfits⟩ := findPlace_eq_some hfind
  rw [List.getElem?_drop, Nat.add_sub_cancel' hle] at hc
  obtain ⟨hheader, hlast, hend⟩ := h.chunk _ c hc
  have hbounds : c.last ≤ r.start ∧ r.start ≤ n := by
    rw [hstart]
    split_ifs
    · exact ⟨le_alignPtr _, alignPtr_le hn hlast⟩
    · exact ⟨le_rfl, hlast⟩
  rw [hend, sub_of_le hsize hbounds.2] at hfits
  have hroom : r.start + size ≤ n := by omega
  have hchunk (i : ℕ) : (p.chunks.modify r.chunk fun c => { c with last := r.start + size })[i]? =
      p.chunks[i]?.map fun c => if r.chunk = i then { c with last := r.start + size } else c := by
    rw [List.getElem?_modify]
    rfl
  have hself : (p.chunks.modify r.chunk fun c => { c with last := r.start + size })[r.chunk]? =
      some { c with last := r.start + size } := by
    rw [hchunk, hc, Option.map_some, if_pos rfl]
  refine ⟨⟨rfl, rfl, rfl, ⟨h.max_le, ?_, ?_⟩, ?_, ?_, ?_, hlen, ?_⟩, ?_⟩
  · rw [List.length_modify]
    exact h.current_lt
  · intro i c' hc'
    rw [hchunk] at hc'
    obtain ⟨c₀, hc₀, rfl⟩ := Option.map_eq_some_iff.1 hc'
    obtain ⟨hheader₀, hlast₀, hend₀⟩ := h.chunk i c₀ hc₀
    split_ifs with hi
    · subst hi
      exact ⟨hheader.trans (hbounds.1.trans (Nat.le_add_right _ _)), hroom, hend₀⟩
    · exact ⟨hheader₀, hlast₀, hend₀⟩
  · intro i c' hc'
    refine ⟨_, by rw [hchunk, hc', Option.map_some], ?_⟩
    split_ifs with hi
    · subst hi
      obtain rfl := Option.some.inj (hc.symm.trans hc')
      exact hbounds.1.trans (Nat.le_add_right _ _)
    · exact le_rfl
  · exact ⟨_, hself, hheader.trans hbounds.1, by rw [hlen]⟩
  · intro c' hc'
    obtain rfl := Option.some.inj (hc.symm.trans hc')
    exact hbounds.1
  · intro pending hbalanced
    have hblocks :
        (p.chunks.modify r.chunk fun c => { c with last := r.start + size }).map (·.block) =
        p.chunks.map (·.block) := by
      refine List.ext_getElem? fun i => ?_
      rw [List.getElem?_map, List.getElem?_map, hchunk, Option.map_map]
      cases p.chunks[i]? with
      | none => rfl
      | some c₀ =>
        simp only [Option.map_some, Function.comp_apply]
        split_ifs <;> rfl
    rw [Balanced, hblocks]
    exact hbalanced
  · rintro rfl
    rw [hstart, if_pos rfl]
    exact dvd_alignPtr _

theorem pallocBlock_placed (h : WellFormed n p) (hroom : poolDataSize + size ≤ n) :
    Placed n p (p.pallocBlock size).1 size (p.pallocBlock size).2 ∧
      8 ∣ (p.pallocBlock size).2.start := by
  obtain ⟨hmap, hcurrent⟩ := countFailures_spec p.current p.current (p.chunks.drop p.current) (by
    rw [List.length_drop]
    exact Nat.lt_add_of_pos_right (Nat.sub_pos_of_lt h.current_lt))
  generalize hr : MemPool.countFailures p.current p.current (p.chunks.drop p.current) =
    counted at hmap hcurrent
  obtain ⟨first, chunks, hchunks⟩ := List.exists_cons_of_length_pos (Nat.zero_lt_of_lt h.current_lt)
  have hpsize : (p.chunks.head?.map (·.dataEnd)).getD 0 = n := by
    have hfirst := (h.chunk 0 first (by rw [hchunks]; rfl)).2.2
    rw [hchunks]
    exact hfirst
  have heq : p.pallocBlock size = ({ p with
      chunks :=
        p.chunks.take p.current ++ counted.1 ++ [⟨p.nextBlock, alignPtr poolDataSize + size, n, 0⟩]
      current := counted.2
      nextBlock := p.nextBlock + 1 }, ⟨p.chunks.length, alignPtr poolDataSize, size⟩) := by
    rw [MemPool.pallocBlock, hr, hpsize]
  have hold : (p.chunks.take p.current ++ counted.1).map (fun c => (c.block, c.last, c.dataEnd)) =
      p.chunks.map (fun c => (c.block, c.last, c.dataEnd)) := by
    rw [List.map_append, hmap, ← List.map_append, List.take_append_drop]
  have hlength : (p.chunks.take p.current ++ counted.1).length = p.chunks.length := by
    have hlengths := congrArg List.length hold
    rwa [List.length_map, List.length_map] at hlengths
  obtain ⟨before, hbefore⟩ : ∃ before, before = p.chunks.take p.current ++ counted.1 := ⟨_, rfl⟩
  rw [← hbefore] at heq hold hlength
  have hat (i : ℕ) (c : PoolData) (hc : before[i]? = some c) :
      ∃ c₀ : PoolData, p.chunks[i]? = some c₀ ∧ c.last = c₀.last ∧ c.dataEnd = c₀.dataEnd := by
    have hi := congrArg (·[i]?) hold
    simp only [List.getElem?_map, hc, Option.map_some] at hi
    obtain ⟨c₀, hc₀, hfields⟩ := Option.map_eq_some_iff.1 hi.symm
    obtain ⟨-, hlast, hend⟩ : c₀.block = c.block ∧ c₀.last = c.last ∧ c₀.dataEnd = c.dataEnd := by
      simpa using hfields
    exact ⟨c₀, hc₀, hlast.symm, hend.symm⟩
  have hnew :
      (before ++
      [(⟨p.nextBlock, alignPtr poolDataSize + size, n, 0⟩ : PoolData)])[p.chunks.length]? =
      some ⟨p.nextBlock, alignPtr poolDataSize + size, n, 0⟩ := by
    rw [← hlength, List.getElem?_append_right le_rfl, Nat.sub_self]
    rfl
  have halign : alignPtr poolDataSize = poolDataSize := by decide
  have hpos : headerSize p.chunks.length = poolDataSize :=
    if_neg (Nat.ne_of_gt (Nat.zero_lt_of_lt h.current_lt))
  rw [heq]
  refine ⟨⟨rfl, rfl, rfl, ⟨h.max_le, ?_, ?_⟩, ?_, ⟨_, hnew, ?_, le_rfl⟩, ?_, rfl, ?_⟩,
    dvd_alignPtr _⟩
  · have hlen : p.current + (p.chunks.drop p.current).length = p.chunks.length := by
      rw [List.length_drop]
      exact Nat.add_sub_cancel' h.current_lt.le
    show counted.2 < (before ++ [_]).length
    rw [List.length_append, hlength]
    exact (hlen ▸ hcurrent).trans (Nat.lt_succ_self _)
  · intro i c hc
    rcases Nat.lt_or_ge i before.length with hi | hi
    · rw [List.getElem?_append_left hi] at hc
      obtain ⟨c₀, hc₀, hlast, hend⟩ := hat i c hc
      rw [hlast, hend]
      exact h.chunk i c₀ hc₀
    · rw [List.getElem?_append_right hi] at hc
      have hzero : i - before.length = 0 := by
        by_contra hne
        rw [List.getElem?_eq_none (Nat.one_le_iff_ne_zero.2 hne)] at hc
        exact Option.some_ne_none _ hc.symm
      obtain rfl : i = p.chunks.length := by omega
      rw [hzero] at hc
      obtain rfl := Option.some.inj hc
      rw [hpos, halign]
      exact ⟨Nat.le_add_right _ _, hroom, rfl⟩
  · intro i c hc
    have hi : i < before.length := hlength ▸ (List.getElem?_eq_some_iff.1 hc).1
    obtain ⟨c', hc'⟩ : ∃ c', before[i]? = some c' := ⟨_, List.getElem?_eq_getElem hi⟩
    obtain ⟨c₀, hc₀, hlast, -⟩ := hat i c' hc'
    obtain rfl := Option.some.inj (hc.symm.trans hc₀)
    exact ⟨c', by rw [List.getElem?_append_left hi, hc'], hlast.ge⟩
  · rw [hpos, halign]
  · intro c hc
    rw [List.getElem?_eq_none le_rfl] at hc
    exact (Option.some_ne_none _ hc.symm).elim
  · intro pending hbalanced
    have hblocks : before.map (·.block) = p.chunks.map (·.block) := by
      have hfst := congrArg (List.map Prod.fst) hold
      rwa [List.map_map, List.map_map] at hfst
    rw [Balanced] at hbalanced ⊢
    rw [List.range_succ, List.map_append, hblocks]
    refine List.Perm.trans ?_ (hbalanced.append_right [p.nextBlock])
    simp only [MemPool.blocks, List.map_cons, List.map_nil, List.append_assoc]
    exact ((List.perm_append_comm.append_left _).append_left _).append_left _

theorem pallocSmall_placed (h : WellFormed n p) (hn : 8 ∣ n) (hsize : n < 2 ^ 64) (align : Bool)
    (hroom : poolDataSize + size ≤ n) :
    Placed n p (p.pallocSmall size align).1 size (p.pallocSmall size align).2 ∧
      (align = true → 8 ∣ (p.pallocSmall size align).2.start) := by
  rw [MemPool.pallocSmall]
  cases hfind : MemPool.findPlace size align p.current (p.chunks.drop p.current) with
  | some r => exact findPlace_placed h hn hsize hfind
  | none =>
    obtain ⟨hplaced, hdvd⟩ := pallocBlock_placed h hroom
    exact ⟨hplaced, fun _ => hdvd⟩

def Tidy (p : MemPool) (regions : List Region) : Prop :=
  (∀ r ∈ regions, Inside p r) ∧ regions.Pairwise Region.Apart

theorem Tidy.perm {regions regions' : List Region} (h : Tidy p regions)
    (hperm : regions.Perm regions') :
    Tidy p regions' :=
  ⟨fun r hr => h.1 r (hperm.mem_iff.2 hr), (hperm.pairwise_iff fun hapart => hapart.symm).1 h.2⟩

theorem Tidy.place {regions : List Region} (h : Tidy p regions) (hplaced : Placed n p p' size r) :
    Tidy p' (r :: regions) := by
  refine ⟨?_, List.pairwise_cons.2 ⟨fun r' hr' => hplaced.apart (h.1 r' hr'), h.2⟩⟩
  rw [List.forall_mem_cons]
  exact ⟨hplaced.inside, fun r' hr' => (h.1 r' hr').of_placed hplaced⟩

structure MemPoolInv (n : ℕ) (p : MemPool) (held : List Region) : Prop where
  wellFormed : WellFormed n p
  balanced : Balanced p []
  tidy : Tidy p (held ++ p.places)

variable {held : List Region}

theorem MemPoolInv.small (h : MemPoolInv n p held) (hplaced : Placed n p p' size r) :
    MemPoolInv n p' (r :: held) := by
  refine ⟨hplaced.wellFormed, hplaced.balanced h.balanced, ?_⟩
  rw [MemPool.places, hplaced.large, hplaced.cleanup]
  exact h.tidy.place hplaced

theorem MemPoolInv.addLarge {block : ℕ} (hwell : WellFormed n p) (hbalanced : Balanced p [block])
    (htidy : Tidy p (held ++ p.places)) (hn : 8 ∣ n) (hsize : n < 2 ^ 64) :
    MemPoolInv n (p.addLarge block) held ∧ (p.addLarge block).cleanup = p.cleanup := by
  have hmax := hwell.max_le
  have hroom : poolDataSize + poolLargeSize ≤ n := by
    simp only [poolDataSize, poolLargeSize, poolSize] at hmax ⊢
    omega
  obtain ⟨hplaced, -⟩ := pallocSmall_placed hwell hn hsize true hroom
  refine ⟨⟨⟨hplaced.wellFormed.max_le, hplaced.wellFormed.current_lt, hplaced.wellFormed.chunk⟩, ?_,
    ?_⟩,
    hplaced.cleanup⟩
  · have hblocks :
        (p.addLarge block).blocks = block :: (p.pallocSmall poolLargeSize true).1.blocks := rfl
    rw [Balanced, hblocks]
    exact hplaced.balanced hbalanced
  · have hplaces :
        (p.addLarge block).places = (p.pallocSmall poolLargeSize true).2 :: p.places := by
      rw [MemPool.places, MemPool.places, MemPool.addLarge]
      simp only [hplaced.large, hplaced.cleanup, List.map_cons, List.cons_append]
    rw [hplaces]
    exact (htidy.place hplaced).perm List.perm_middle.symm

theorem modify_split {α : Type*} (f : α → α) {l : List α} {i : ℕ} {a : α} (h : l[i]? = some a) :
    ∃ before after, l = before ++ a :: after ∧ l.modify i f = before ++ f a :: after := by
  obtain ⟨hi, rfl⟩ := List.getElem?_eq_some_iff.1 h
  refine ⟨l.take i, l.drop (i + 1), ?_, List.modify_eq_take_cons_drop hi⟩
  rw [List.getElem_cons_drop, List.take_append_drop]

theorem MemPoolInv.pending (h : MemPoolInv n p held) :
    Balanced { p with nextBlock := p.nextBlock + 1 } [p.nextBlock] := by
  have hbalanced := h.balanced
  rw [Balanced, List.nil_append] at hbalanced
  rw [Balanced, List.range_succ, List.append_assoc, List.append_assoc, List.singleton_append]
  exact ((List.append_assoc _ _ _ ▸ hbalanced).cons _).trans (List.perm_append_singleton _ _).symm

theorem MemPoolInv.pallocLarge (h : MemPoolInv n p held) (hn : 8 ∣ n) (hsize : n < 2 ^ 64) :
    MemPoolInv n p.pallocLarge.1 held ∧ p.pallocLarge.1.cleanup = p.cleanup := by
  have hpending := h.pending
  rw [MemPool.pallocLarge]
  dsimp only
  cases hfind : (p.large.take 5).findIdx? (·.alloc = none) with
  | none =>
    exact MemPoolInv.addLarge (p := { p with nextBlock := p.nextBlock + 1 })
      ⟨h.wellFormed.max_le, h.wellFormed.current_lt, h.wellFormed.chunk⟩ hpending ⟨h.tidy.1,
        h.tidy.2⟩ hn hsize
  | some i =>
    obtain ⟨hi, hnone, -⟩ := List.findIdx?_eq_some_iff_getElem.1 hfind
    have hi' : i < p.large.length := hi.trans_le (List.take_prefix _ _).length_le
    have hentry : p.large[i]? = some p.large[i] := List.getElem?_eq_getElem hi'
    rw [List.getElem_take] at hnone
    have hnone' : p.large[i].alloc = none := of_decide_eq_true hnone
    obtain ⟨before, after, hlarge, hmodify⟩ :=
      modify_split (fun l : PoolLarge => { l with alloc := some p.nextBlock }) hentry
    refine ⟨⟨⟨h.wellFormed.max_le, h.wellFormed.current_lt, h.wellFormed.chunk⟩, ?_, ?_⟩, rfl⟩
    · rw [Balanced, MemPool.blocks] at hpending
      rw [Balanced, MemPool.blocks]
      dsimp only at hpending ⊢
      rw [hmodify, List.filterMap_append, List.filterMap_cons_some (b := p.nextBlock) (by rfl),
        List.nil_append]
      rw [hlarge, List.filterMap_append, List.filterMap_cons_none hnone'] at hpending
      refine List.Perm.trans ?_ hpending
      exact ((List.perm_middle.trans (by rfl)).append_right _).append_right _
    · have hplaces :
          (p.large.modify i fun l => { l with alloc := some p.nextBlock }).map (·.place) =
          p.large.map (·.place) := by
        rw [hmodify]
        conv_rhs => rw [hlarge]
        rw [List.map_append, List.map_append, List.map_cons, List.map_cons]
      rw [MemPool.places]
      dsimp only
      rw [hplaces]
      exact h.tidy

theorem MemPoolInv.palloc (h : MemPoolInv n p held) (hn : 8 ∣ n) (hsize : n < 2 ^ 64) (size : ℕ)
    (align : Bool) :
    MemPoolInv n (p.palloc size align).1 ((p.palloc size align).2.regions ++ held) ∧
      (p.palloc size align).1.cleanup = p.cleanup := by
  rw [MemPool.palloc]
  split_ifs with hmax
  · have hroom : poolDataSize + size ≤ n := by
      have hle := h.wellFormed.max_le
      simp only [poolDataSize, poolSize] at hle ⊢
      omega
    obtain ⟨hplaced, -⟩ := pallocSmall_placed h.wellFormed hn hsize align hroom
    exact ⟨h.small hplaced, hplaced.cleanup⟩
  · exact h.pallocLarge hn hsize

theorem MemPoolInv.pmemalign (h : MemPoolInv n p held) (hn : 8 ∣ n) (hsize : n < 2 ^ 64) :
    MemPoolInv n p.pmemalign.1 held := by
  exact (MemPoolInv.addLarge (p := { p with nextBlock := p.nextBlock + 1 })
    ⟨h.wellFormed.max_le, h.wellFormed.current_lt, h.wellFormed.chunk⟩ h.pending ⟨h.tidy.1,
      h.tidy.2⟩ hn hsize).1

theorem MemPoolInv.pfree (h : MemPoolInv n p held) (block : ℕ) :
    MemPoolInv n (p.pfree block).1 held := by
  rw [MemPool.pfree]
  cases hfind : p.large.findIdx? (·.alloc = some block) with
  | none => exact h
  | some i =>
    obtain ⟨hi, hsome, -⟩ := List.findIdx?_eq_some_iff_getElem.1 hfind
    have hsome' : p.large[i].alloc = some block := of_decide_eq_true hsome
    obtain ⟨before, after, hlarge, hmodify⟩ :=
      modify_split (fun l : PoolLarge => { l with alloc := none }) (List.getElem?_eq_getElem hi)
    refine ⟨⟨h.wellFormed.max_le, h.wellFormed.current_lt, h.wellFormed.chunk⟩, ?_, ?_⟩
    · have hbalanced := h.balanced
      rw [Balanced, MemPool.blocks] at hbalanced ⊢
      dsimp only at hbalanced ⊢
      rw [hmodify, List.filterMap_append, List.filterMap_cons_none rfl, List.nil_append]
      rw [hlarge, List.filterMap_append, List.filterMap_cons_some hsome',
        List.nil_append] at hbalanced
      refine List.Perm.trans ?_ hbalanced
      refine List.perm_middle.trans ?_
      exact (List.perm_middle.symm.append_right _).append_right _
    · have hplaces : (p.large.modify i fun l => { l with alloc := none }).map (·.place) =
          p.large.map (·.place) := by
        rw [hmodify]
        conv_rhs => rw [hlarge]
        rw [List.map_append, List.map_append, List.map_cons, List.map_cons]
      rw [MemPool.places]
      dsimp only
      rw [hplaces]
      exact h.tidy

theorem MemPoolInv.addCleanup {place : PoolPtr} (h : MemPoolInv n p (place.regions ++ held))
    (data : Option PoolPtr) :
    MemPoolInv n { p with cleanup := ⟨place, data⟩ :: p.cleanup } held := by
  refine ⟨⟨h.wellFormed.max_le, h.wellFormed.current_lt, h.wellFormed.chunk⟩, h.balanced, ?_⟩
  refine Tidy.perm ⟨h.tidy.1, h.tidy.2⟩ ?_
  simp only [MemPool.places, List.flatMap_cons]
  rw [List.append_assoc, ← List.append_assoc held]
  refine List.perm_append_comm.trans ?_
  simp only [List.append_assoc]
  exact ((List.perm_append_comm.append_left _).append_left _)

theorem MemPoolInv.cleanupAdd (h : MemPoolInv n p held) (hn : 8 ∣ n) (hsize : n < 2 ^ 64)
    (size : ℕ) :
    MemPoolInv n (p.cleanupAdd size).1
      (((p.cleanupAdd size).2.map PoolPtr.regions).getD [] ++ held) := by
  obtain ⟨hplace, -⟩ := h.palloc hn hsize poolCleanupSize true
  rw [MemPool.cleanupAdd]
  split_ifs with hzero
  · exact hplace.addCleanup none
  · obtain ⟨hdata, -⟩ := hplace.palloc hn hsize size true
    have hperm := hdata.tidy.perm (List.Perm.append_right _ (List.perm_append_comm_assoc _ _ held))
    exact MemPoolInv.addCleanup ⟨hdata.wellFormed, hdata.balanced, hperm⟩ _

theorem MemPoolInv.reset (h : MemPoolInv n p held) (hcleanup : p.cleanup = []) :
    MemPoolInv n p.reset [] := by
  have hpool : poolSize ≤ n := (Nat.le_add_left _ _).trans h.wellFormed.max_le
  refine ⟨⟨h.wellFormed.max_le, ?_, ?_⟩, ?_, ?_⟩
  · rw [MemPool.reset, List.length_map]
    exact Nat.zero_lt_of_lt h.wellFormed.current_lt
  · intro i c hc
    rw [MemPool.reset, List.getElem?_map] at hc
    obtain ⟨c₀, hc₀, rfl⟩ := Option.map_eq_some_iff.1 hc
    exact ⟨headerSize_le i, hpool, (h.wellFormed.chunk i c₀ hc₀).2.2⟩
  · have hbalanced := h.balanced
    have hblocks : (p.chunks.map fun c => { c with last := poolSize, failed := 0 }).map (·.block) =
        p.chunks.map (·.block) := by
      rw [List.map_map]
      rfl
    rw [Balanced, List.nil_append] at hbalanced
    rw [Balanced, MemPool.reset, MemPool.blocks]
    dsimp only
    rw [hblocks, List.filterMap_nil, List.append_nil, List.nil_append]
    refine List.Perm.trans ?_ hbalanced
    rw [← List.append_assoc]
    refine (List.perm_append_comm.trans ?_).append_right _
    exact (List.reverse_perm _).append_right _
  · rw [MemPool.reset, MemPool.places, hcleanup]
    exact ⟨fun r hr => (List.not_mem_nil hr).elim, List.Pairwise.nil⟩

theorem memPoolInv_create (hpool : poolSize ≤ n) (hsize : n < 2 ^ 64) :
    MemPoolInv n (poolCreate n) [] := by
  refine ⟨⟨?_, Nat.one_pos, ?_⟩, List.Perm.refl _, fun r hr => (List.not_mem_nil hr).elim,
    List.Pairwise.nil⟩
  · rw [poolCreate, sub_of_le hsize hpool]
    have hmin := min_le_left (n - poolSize) maxAllocFromPool
    dsimp only
    omega
  · intro i c hc
    cases i with
    | zero =>
      obtain rfl := Option.some.inj hc
      exact ⟨le_rfl, hpool, rfl⟩
    | succ i => exact (Option.some_ne_none _ hc.symm).elim

structure PallocUse where
  pool : MemPool
  held : List Region
deriving DecidableEq, Repr

inductive PallocOp
  | palloc (size : ℕ) (align : Bool)
  | pmemalign
  | pfree (block : ℕ)
  | cleanupAdd (size : ℕ)
  | reset
deriving DecidableEq, Repr

namespace PallocUse

def start (size : ℕ) : PallocUse := ⟨poolCreate size, []⟩

def step (u : PallocUse) : PallocOp → PallocUse
  | .palloc size align =>
    let r := u.pool.palloc size align
    ⟨r.1, r.2.regions ++ u.held⟩
  | .pmemalign => { u with pool := u.pool.pmemalign.1 }
  | .pfree block => { u with pool := (u.pool.pfree block).1 }
  | .cleanupAdd size =>
    let r := u.pool.cleanupAdd size
    ⟨r.1, (r.2.map PoolPtr.regions).getD [] ++ u.held⟩
  | .reset => ⟨u.pool.reset, []⟩

/-- `ch_pool_reset` leaves the cleanup records, which are kept in the memory that it takes back. -/
def Allows (u : PallocUse) : PallocOp → Prop
  | .reset => u.pool.cleanup = []
  | _ => True

instance (u : PallocUse) : (op : PallocOp) → Decidable (u.Allows op)
  | .reset => inferInstanceAs (Decidable (u.pool.cleanup = []))
  | .palloc _ _ => isTrue trivial
  | .pmemalign => isTrue trivial
  | .pfree _ => isTrue trivial
  | .cleanupAdd _ => isTrue trivial

def Inv (n : ℕ) (u : PallocUse) : Prop := MemPoolInv n u.pool u.held

theorem step_inv {u : PallocUse} {op : PallocOp} (hn : 8 ∣ n) (hsize : n < 2 ^ 64) (h : Inv n u)
    (hallows : u.Allows op) : Inv n (u.step op) := by
  cases op with
  | palloc size align => exact (h.palloc hn hsize size align).1
  | pmemalign => exact h.pmemalign hn hsize
  | pfree block => exact h.pfree block
  | cleanupAdd size => exact h.cleanupAdd hn hsize size
  | reset => exact h.reset hallows

/-- The memory of the callers and of the records of the pool is apart and inside of the chunks, the
next request gets memory as it asks for, and the end of the pool gives each block back once. -/
structure Sound (u : PallocUse) : Prop where
  apart : (u.held ++ u.pool.places).Pairwise Region.Apart
  inside : ∀ r ∈ u.held ++ u.pool.places, ∃ c, u.pool.chunks[r.chunk]? = some c ∧
    headerSize r.chunk ≤ r.start ∧ r.start + r.len ≤ c.dataEnd
  next : ∀ size align r, (u.pool.palloc size align).2 = .small r → r.len = size ∧
    (align = true → 8 ∣ r.start)
  destroyed : u.pool.destroy.Perm (List.range u.pool.nextBlock)

theorem sound_of_inv {u : PallocUse} (hn : 8 ∣ n) (hsize : n < 2 ^ 64) (h : Inv n u) : u.Sound where
  apart := h.tidy.2
  inside := fun r hr => by
    obtain ⟨c, hc, hheader, hlast⟩ := h.tidy.1 r hr
    obtain ⟨-, hle, hend⟩ := h.wellFormed.chunk _ c hc
    exact ⟨c, hc, hheader, hlast.trans (hle.trans_eq hend.symm)⟩
  next := fun size align r hr => by
    rw [MemPool.palloc] at hr
    split_ifs at hr with hmax
    obtain rfl := PoolPtr.small.inj hr
    have hroom : poolDataSize + size ≤ n := by
      have hle := h.wellFormed.max_le
      simp only [poolDataSize, poolSize] at hle ⊢
      omega
    obtain ⟨hplaced, hdvd⟩ := pallocSmall_placed h.wellFormed hn hsize align hroom
    exact ⟨hplaced.len, hdvd⟩
  destroyed := by
    have hbalanced := h.balanced
    rw [Balanced, List.nil_append] at hbalanced
    exact ((List.reverse_perm _).append_right _).trans hbalanced

/-- Whatever is asked of a pool, in whatever order, it never hands out a byte twice, none of a
header or a record, and none outside of its chunks, and in the end it gives every block back
once. -/
theorem palloc_run_sound (hn : 8 ∣ n) (hpool : poolSize ≤ n) (hsize : n < 2 ^ 64)
    {ops : List PallocOp}
    (hallows : ∀ v ∈ Lib.trace step (start n) ops, v.1.Allows v.2) :
      (ops.foldl step (start n)).Sound := by
  have hinit : Inv n (start n) := memPoolInv_create hpool hsize
  have hstep {u u' : PallocUse} {op : PallocOp} (h : Inv n u) (hok : u.Allows op)
      (hu : u' = u.step op) :
      Inv n u' := hu ▸ step_inv hn hsize h hok
  have hinv : Inv n (ops.foldl step (start n)) :=
    (Lib.Run.stateInvariant hinit hstep (Lib.Run.trace step (start n) ops)
      (Lib.StepsOk.of_forall hallows)).1
  exact sound_of_inv hn hsize hinv

/-- An aligned place passes the end of a pool whose size is not aligned. -/
example : (((start 85).step (.palloc 1 true)).pool.palloc 1 true).2 = .small ⟨0, 88, 1⟩ := by decide

/-- After `ch_pool_reset` a caller gets the memory of a cleanup record. -/
example : ([.cleanupAdd 0, .reset, .palloc 24 true].foldl step (start 1024)).held = [⟨0, 80, 24⟩] ∧
    ([.cleanupAdd 0, .reset, .palloc 24 true].foldl step (start 1024)).pool.places =
    [⟨0, 80, 24⟩] := by decide

def mixedRequests : List PallocOp :=
  [.palloc 100 true, .palloc 3 false, .palloc 2000 true, .pmemalign, .pfree 1, .palloc 3000 true,
    .palloc 800 true, .cleanupAdd 8, .palloc 900 true]

theorem mixedRequests_sound : (mixedRequests.foldl step (start 1024)).Sound ∧
    (mixedRequests.foldl step (start 1024)).pool.destroy = [4, 0, 3, 2, 1] := by
  refine ⟨palloc_run_sound (by decide) (by decide) (by decide) ?_, by decide +kernel⟩
  decide +kernel

end PallocUse

end CloudHands.Mem
