import Mathlib.Data.List.TakeWhile
import CloudHands.Dns.Parse

/-!
# What the DNS name parser decodes

`LabelsAt` reads the labels of a name by recursion, the way the format describes them: a
length byte and as many bytes, a zero, or a pointer below the pointer before it. The byte
loop of `ch_dns_name_parse` finds exactly these labels, and fails where there are none or
they are too long. The copy of the name that is stored goes through a C string.
-/

namespace CloudHands.Dns

open Lib

/-- The labels of the name at `p`, and the bytes that the name takes there up to its first
pointer or its zero. Pointers lead below `bound`. -/
inductive LabelsAt (msg : List UInt8) : ℕ → ℕ → List (List UInt8) → ℕ → Prop
  | root {bound p : ℕ} (hzero : msg[p]? = some 0) : LabelsAt msg bound p [] 1
  | label {bound p own : ℕ} {c : UInt8} {labels : List (List UInt8)} (hlength : msg[p]? = some c)
      (hpos : 0 < c.toNat) (hlt : c.toNat < 64) (htext : p + 1 + c.toNat ≤ msg.length)
      (hrest : LabelsAt msg bound (p + 1 + c.toNat) labels own) :
      LabelsAt msg bound p ((msg.drop (p + 1)).take c.toNat :: labels) (1 + c.toNat + own)
  | pointer {bound p own : ℕ} {c b : UInt8} {labels : List (List UInt8)} (hhigh : msg[p]? = some c)
      (hge : 192 ≤ c.toNat) (hlow : msg[p + 1]? = some b)
      (hdown : c.toNat % 64 * 256 + b.toNat < bound)
      (htarget : LabelsAt msg (c.toNat % 64 * 256 + b.toNat) (c.toNat % 64 * 256 + b.toNat)
        labels own) :
      LabelsAt msg bound p labels 2

/-- The bytes of the labels with their length bytes; the zero at the end is one more. -/
def labelBytes (labels : List (List UInt8)) : ℕ := (labels.map (·.length + 1)).sum

def joinDots (labels : List (List UInt8)) : List UInt8 := List.intercalate [46] labels

@[simp] theorem labelBytes_nil : labelBytes [] = 0 := rfl

@[simp] theorem labelBytes_append (labels labels' : List (List UInt8)) :
    labelBytes (labels ++ labels') = labelBytes labels + labelBytes labels' := by
  simp [labelBytes]

@[simp] theorem labelBytes_cons (text : List UInt8) (labels : List (List UInt8)) :
    labelBytes (text :: labels) = text.length + 1 + labelBytes labels := by
  simp [labelBytes]

theorem joinDots_concat {labels : List (List UInt8)} (h : labels ≠ []) (text : List UInt8) :
    joinDots (labels ++ [text]) = joinDots labels ++ 46 :: text := by
  induction labels with
  | nil => exact absurd rfl h
  | cons first rest ih =>
    cases rest with
    | nil => simp [joinDots, List.intercalate_cons_cons]
    | cons second rest =>
      have htail := ih (List.cons_ne_nil second rest)
      simp only [joinDots, List.cons_append, List.intercalate_cons_cons] at htail ⊢
      rw [htail]
      simp

theorem length_joinDots_le (labels : List (List UInt8)) :
    (joinDots labels).length ≤ labelBytes labels := by
  induction labels using List.reverseRecOn with
  | nil => simp [joinDots]
  | append_singleton labels text ih =>
    by_cases hnil : labels = []
    · simp [hnil, joinDots]
    · rw [joinDots_concat hnil, labelBytes_append, List.length_append, List.length_cons]
      simp only [labelBytes_cons, labelBytes_nil]
      omega

section Inversion

variable {msg : List UInt8} {bound p own : ℕ} {c b : UInt8} {labels : List (List UInt8)}

theorem LabelsAt.of_zero (hc : msg[p]? = some 0) (h : LabelsAt msg bound p labels own) :
    labels = [] ∧ own = 1 := by
  cases h with
  | root => exact ⟨rfl, rfl⟩
  | label hlength hpos => simp_all
  | pointer hhigh hge => simp_all

theorem LabelsAt.of_label (hc : msg[p]? = some c) (hpos : 0 < c.toNat) (hlt : c.toNat < 64)
    (h : LabelsAt msg bound p labels own) :
    p + 1 + c.toNat ≤ msg.length ∧ ∃ labels' own',
      labels = (msg.drop (p + 1)).take c.toNat :: labels' ∧ own = 1 + c.toNat + own' ∧
      LabelsAt msg bound (p + 1 + c.toNat) labels' own' := by
  cases h with
  | root hzero =>
    obtain rfl := Option.some.inj (hc.symm.trans hzero)
    exact absurd hpos (by decide)
  | label hlength _ _ htext hrest =>
    obtain rfl := Option.some.inj (hc.symm.trans hlength)
    exact ⟨htext, _, _, rfl, rfl, hrest⟩
  | pointer hhigh hge =>
    obtain rfl := Option.some.inj (hc.symm.trans hhigh)
    omega

theorem LabelsAt.of_pointer (hc : msg[p]? = some c) (hge : 192 ≤ c.toNat)
    (h : LabelsAt msg bound p labels own) :
    own = 2 ∧ ∃ b own', msg[p + 1]? = some b ∧ c.toNat % 64 * 256 + b.toNat < bound ∧
      LabelsAt msg (c.toNat % 64 * 256 + b.toNat) (c.toNat % 64 * 256 + b.toNat) labels own' := by
  cases h with
  | root hzero =>
    obtain rfl := Option.some.inj (hc.symm.trans hzero)
    exact absurd hge (by decide)
  | label hlength _ hlt =>
    obtain rfl := Option.some.inj (hc.symm.trans hlength)
    omega
  | pointer hhigh _ hlow hdown htarget =>
    obtain rfl := Option.some.inj (hc.symm.trans hhigh)
    exact ⟨rfl, _, _, hlow, hdown, htarget⟩

theorem LabelsAt.not_end (hc : msg[p]? = none) : ¬ LabelsAt msg bound p labels own := by
  intro h
  cases h with
  | root hzero => simp_all
  | label hlength => simp_all
  | pointer hhigh => simp_all

theorem LabelsAt.not_reserved (hc : msg[p]? = some c) (hge : 64 ≤ c.toNat) (hlt : c.toNat < 192) :
    ¬ LabelsAt msg bound p labels own := by
  intro h
  cases h with
  | root hzero =>
    obtain rfl := Option.some.inj (hc.symm.trans hzero)
    exact absurd hge (by decide)
  | label hlength _ hlabel =>
    obtain rfl := Option.some.inj (hc.symm.trans hlength)
    omega
  | pointer hhigh hpointer =>
    obtain rfl := Option.some.inj (hc.symm.trans hhigh)
    omega

end Inversion

theorem LabelsAt.unique {msg : List UInt8} {bound p own own' : ℕ}
    {labels labels' : List (List UInt8)}
    (h : LabelsAt msg bound p labels own) (h' : LabelsAt msg bound p labels' own') :
    labels = labels' ∧ own = own' := by
  induction h generalizing labels' own' with
  | root hzero =>
    obtain ⟨rfl, rfl⟩ := h'.of_zero hzero
    exact ⟨rfl, rfl⟩
  | label hlength hpos hlt htext hrest ih =>
    obtain ⟨-, labels₁, own₁, rfl, rfl, h₁⟩ := h'.of_label hlength hpos hlt
    obtain ⟨rfl, rfl⟩ := ih h₁
    exact ⟨rfl, rfl⟩
  | pointer hhigh hge hlow hdown htarget ih =>
    obtain ⟨rfl, b, own₁, hlow', -, h₁⟩ := h'.of_pointer hhigh hge
    obtain rfl := Option.some.inj (hlow.symm.trans hlow')
    exact ⟨(ih h₁).1, rfl⟩

/-- The loop stands before a length byte and has copied the labels `prev`. -/
structure AtLabels (prev : List (List UInt8)) (s : NameState) : Prop where
  state : s.state = .start
  done : s.done = false
  ndata : s.ndata = joinDots prev
  len : s.len = s.ndata.length
  labels : s.labels = prev.length
  nused : s.nused = labelBytes prev

theorem atLabels_init (pos : ℕ) : AtLabels [] (nameInit pos) := ⟨rfl, rfl, rfl, rfl, rfl, rfl⟩

variable {base : List UInt8} {nmax : ℕ}

theorem nameIter_byte (nmax : ℕ) {s : NameState} {b : UInt8} (hdone : s.done = false)
    (hb : base[s.current]? = some b) : nameIter base nmax s = nameByte nmax (nameTake s) b := by
  simp [nameIter, hdone, hb]

theorem nameIter_end {s : NameState} (hdone : s.done = false) (hend : base[s.current]? = none) :
    nameIter base nmax s = .leave (some s) := by
  simp [nameIter, hdone, hend]

/-- The bytes used after `k` more of them. -/
def usedAfter (s : NameState) (k : ℕ) : ℕ := if s.seenPointer then s.cused else s.cused + k

theorem nameLoop_text {fuel : ℕ} {s : NameState} {r : Option NameState}
    (hstate : s.state = .ordinary)
    (hdone : s.done = false) (hn : 0 < s.n) (h : loop (nameIter base nmax) fuel s = some r) :
    (s.current + s.n ≤ base.length ∧ ∃ fuel' ≤ fuel, loop (nameIter base nmax) fuel'
      { s with
        ndata := s.ndata ++ (base.drop s.current).take s.n
        current := s.current + s.n
        cused := usedAfter s s.n
        n := 0
        state := .start } = some r) ∨
    (base.length < s.current + s.n ∧ ∀ t ∈ r, t.done = false) := by
  induction fuel generalizing s with
  | zero => cases h
  | succ fuel ih =>
    cases hb : base[s.current]? with
    | none =>
      rw [loop_leave (nameIter_end hdone hb)] at h
      obtain rfl := Option.some.inj h
      rw [List.getElem?_eq_none_iff] at hb
      refine .inr ⟨by omega, fun t ht => ?_⟩
      obtain rfl := Option.some.inj ht
      exact hdone
    | some b =>
      obtain ⟨hlt, hget⟩ := List.getElem?_eq_some_iff.1 hb
      have hiter := nameIter_byte nmax hdone hb
      simp only [nameByte, nameTake, hstate] at hiter
      rw [loop_next hiter] at h
      have htext : (base.drop s.current).take s.n
          = b :: (base.drop (s.current + 1)).take (s.n - 1) := by
        obtain ⟨k, hk⟩ : ∃ k, s.n = k + 1 := ⟨s.n - 1, by omega⟩
        rw [List.drop_eq_getElem_cons hlt, hk, List.take_succ_cons, hget, Nat.add_sub_cancel]
      by_cases hlast : s.n - 1 = 0
      · refine .inl ⟨by omega, fuel, Nat.le_succ fuel, ?_⟩
        have hone : s.n = 1 := by omega
        simp only [hone, Nat.sub_self, if_true] at h
        rw [htext, hone]
        exact h
      · rw [if_neg hlast] at h
        rcases ih (by rfl) (by exact hdone) (by dsimp only; omega) h with
          ⟨hfit, fuel', hle, hrest⟩ | ⟨hshort, hr⟩
        · refine .inl ⟨by dsimp only at hfit; omega, fuel', by omega, ?_⟩
          rw [htext]
          have hsum : s.current + 1 + (s.n - 1) = s.current + s.n := by omega
          have hused : usedAfter { s with
              ndata := s.ndata ++ [b], n := s.n - 1, state := .ordinary, current := s.current + 1,
              cused := if s.seenPointer then s.cused else s.cused + 1 } (s.n - 1) =
                usedAfter s s.n := by
            simp only [usedAfter]
            split
            · rfl
            · omega
          rw [← hused, ← hsum]
          simpa using hrest
        · exact .inr ⟨by dsimp only at hshort; omega, hr⟩

/-- The loop has read the name whose labels behind those of `prev` are found at `s`. -/
structure NameRead (base : List UInt8) (nmax : ℕ) (prev : List (List UInt8)) (s t : NameState)
    (labels : List (List UInt8)) (own : ℕ) : Prop where
  found : LabelsAt base s.biggestPointer s.current labels own
  fits : labelBytes (prev ++ labels) + 1 ≤ nmax
  done : t.done = true
  ndata : t.ndata = joinDots (prev ++ labels)
  len : t.len = t.ndata.length
  labels : t.labels = (prev ++ labels).length
  cused : t.cused = usedAfter s own

structure NameRefused (base : List UInt8) (nmax : ℕ) (prev : List (List UInt8)) (s : NameState)
    (r : Option NameState) : Prop where
  long : ∀ labels own, LabelsAt base s.biggestPointer s.current labels own →
    nmax < labelBytes (prev ++ labels) + 1
  failed : ∀ t ∈ r, t.done = false

def Outcome (base : List UInt8) (nmax : ℕ) (prev : List (List UInt8)) (s : NameState)
    (r : Option NameState) : Prop :=
  (∃ t labels own, r = some t ∧ NameRead base nmax prev s t labels own) ∨
    NameRefused base nmax prev s r

section Items

variable {fuel : ℕ} {prev : List (List UInt8)} {s : NameState} {r : Option NameState} {c b : UInt8}

theorem nameIter_root (nmax : ℕ) (hs : AtLabels prev s) (hc : base[s.current]? = some 0) :
    nameIter base nmax s =
      if nmax < s.nused + 1 then .leave none
      else .next
        { nameTake s with nused := s.nused + 1, done := true, n := 0, state := .ordinary } := by
  rw [nameIter_byte nmax hs.done hc, nameByte, nameTake]
  simp [hs.state, nameStart]

def textState (s : NameState) (c : UInt8) : NameState :=
  { nameTake s with
    labels := s.labels + 1
    nused := s.nused + c.toNat + 1
    ndata := if s.labels ≠ 0 then s.ndata ++ [46] else s.ndata
    len := s.len + c.toNat + if s.labels ≠ 0 then 1 else 0
    n := c.toNat
    state := .ordinary }

theorem nameIter_label (nmax : ℕ) (hs : AtLabels prev s) (hc : base[s.current]? = some c)
    (hpos : 0 < c.toNat)
    (hlt : c.toNat < 64) :
    nameIter base nmax s =
      if nmax < s.nused + c.toNat + 1 then .leave none else .next (textState s c) := by
  have hne : c.toNat ≠ 0 := by omega
  have hdone := hs.done
  rw [nameIter_byte nmax hdone hc, nameByte, textState, nameTake]
  simp [hs.state, nameStart, hlt, hne, hdone]

def pointerState (s : NameState) (c : UInt8) : NameState :=
  { nameTake s with newCurrent := c.toNat % 64, state := .newcurrent }

theorem nameIter_pointer (hs : AtLabels prev s) (hc : base[s.current]? = some c)
    (hge : 192 ≤ c.toNat) :
    nameIter base nmax s = .next (pointerState s c) := by
  rw [nameIter_byte nmax hs.done hc, nameByte, pointerState, nameTake]
  simp [hs.state, nameStart, hge, show ¬ c.toNat < 64 by omega, show ¬ c.toNat < 192 by omega]

def targetState (s : NameState) (c b : UInt8) : NameState :=
  { s with
    cused := usedAfter s 2
    newCurrent := c.toNat % 64 * 256 + b.toNat
    biggestPointer := c.toNat % 64 * 256 + b.toNat
    current := c.toNat % 64 * 256 + b.toNat
    seenPointer := true
    state := .start }

theorem atLabels_target (hs : AtLabels prev s) : AtLabels prev (targetState s c b) :=
  ⟨rfl, hs.done, hs.ndata, hs.len, hs.labels, hs.nused⟩

theorem nameIter_target (nmax : ℕ) (hs : AtLabels prev s) (hb : base[s.current + 1]? = some b) :
    nameIter base nmax (pointerState s c) =
      if s.biggestPointer ≤ c.toNat % 64 * 256 + b.toNat then .leave none
      else .next (targetState s c b) := by
  have hused :
      usedAfter s 2 = if s.seenPointer then (if s.seenPointer then s.cused else s.cused + 1)
      else (if s.seenPointer then s.cused else s.cused + 1) + 1 := by
    rw [usedAfter]
    split <;> rfl
  rw [nameIter_byte (s := pointerState s c) nmax hs.done hb, targetState, hused]
  rfl

theorem nameIter_reserved (hs : AtLabels prev s) (hc : base[s.current]? = some c)
    (hge : 64 ≤ c.toNat)
    (hlt : c.toNat < 192) : nameIter base nmax s = .leave none := by
  rw [nameIter_byte nmax hs.done hc, nameByte, nameTake]
  simp only [hs.state, nameStart]
  split_ifs <;> first | rfl | omega

theorem outcome_end (hs : AtLabels prev s) (hc : base[s.current]? = none)
    (h : loop (nameIter base nmax) (fuel + 1) s = some r) : Outcome base nmax prev s r := by
  rw [loop_leave (nameIter_end hs.done hc)] at h
  obtain rfl := Option.some.inj h
  refine .inr ⟨fun labels own hlabels => absurd hlabels (LabelsAt.not_end hc), fun t ht => ?_⟩
  obtain rfl := Option.some.inj ht
  exact hs.done

theorem outcome_reserved (hs : AtLabels prev s) (hc : base[s.current]? = some c)
    (hge : 64 ≤ c.toNat)
    (hlt : c.toNat < 192) (h : loop (nameIter base nmax) (fuel + 1) s = some r) :
    Outcome base nmax prev s r := by
  rw [loop_leave (nameIter_reserved hs hc hge hlt)] at h
  obtain rfl := Option.some.inj h
  exact .inr ⟨fun labels own hlabels => absurd hlabels (LabelsAt.not_reserved hc hge hlt), nofun⟩

theorem outcome_root (hs : AtLabels prev s) (hc : base[s.current]? = some 0)
    (h : loop (nameIter base nmax) (fuel + 1) s = some r) : Outcome base nmax prev s r := by
  have hiter := nameIter_root nmax hs hc
  by_cases hfull : nmax < s.nused + 1
  · rw [if_pos hfull] at hiter
    rw [loop_leave hiter] at h
    obtain rfl := Option.some.inj h
    refine .inr ⟨fun labels own hlabels => ?_, nofun⟩
    obtain ⟨rfl, -⟩ := hlabels.of_zero hc
    rw [List.append_nil, ← hs.nused]
    exact hfull
  · rw [if_neg hfull] at hiter
    rw [loop_next hiter] at h
    cases fuel with
    | zero => cases h
    | succ fuel =>
      rw [loop_leave (by simp only [nameIter, if_true]; rfl)] at h
      refine .inl ⟨_, [], 1, (Option.some.inj h).symm, .root hc, ?_, rfl, ?_, ?_, ?_, rfl⟩
      · rw [List.append_nil, ← hs.nused]
        exact not_lt.1 hfull
      · simpa [nameTake] using hs.ndata
      · simpa [nameTake] using hs.len
      · simpa [nameTake] using hs.labels

theorem atLabels_text (hs : AtLabels prev s) {text : List UInt8} (htext : text.length = c.toNat)
    {current cused : ℕ} :
    AtLabels (prev ++ [text]) { textState s c with
      ndata := (textState s c).ndata ++ text
      current := current
      cused := cused
      n := 0
      state := .start } := by
  have hndata : (textState s c).ndata ++ text = joinDots (prev ++ [text]) := by
    by_cases hnil : prev = []
    · have hlabels := hs.labels
      have hdata := hs.ndata
      subst hnil
      simp_all [textState, joinDots]
    · have hlabels : s.labels ≠ 0 := by
        rw [hs.labels]
        exact fun h => hnil (List.length_eq_zero_iff.1 h)
      rw [joinDots_concat hnil, textState, if_pos hlabels, hs.ndata]
      simp
  refine ⟨rfl, hs.done, hndata, ?_, ?_, ?_⟩
  · simp only [textState, hs.len]
    split <;> simp <;> omega
  · simp [textState, hs.labels]
  · simp [textState, hs.nused, htext]
    omega

theorem outcome_label (hs : AtLabels prev s) (hc : base[s.current]? = some c) (hpos : 0 < c.toNat)
    (hlt : c.toNat < 64)
    (ih : ∀ fuel' < fuel + 1, ∀ prev' s', AtLabels prev' s' →
      loop (nameIter base nmax) fuel' s' = some r → Outcome base nmax prev' s' r)
    (h : loop (nameIter base nmax) (fuel + 1) s = some r) : Outcome base nmax prev s r := by
  have hiter := nameIter_label nmax hs hc hpos hlt
  by_cases hfull : nmax < s.nused + c.toNat + 1
  · rw [if_pos hfull] at hiter
    rw [loop_leave hiter] at h
    obtain rfl := Option.some.inj h
    refine .inr ⟨fun labels own hlabels => ?_, nofun⟩
    obtain ⟨htext, labels', -, rfl, -⟩ := hlabels.of_label hc hpos hlt
    rw [hs.nused] at hfull
    simp only [labelBytes_append, labelBytes_cons, List.length_take, List.length_drop]
    omega
  rw [if_neg hfull] at hiter
  rw [loop_next hiter] at h
  rcases nameLoop_text (by rfl) (by exact hs.done) (by exact hpos) h with ⟨hfit, fuel', hle,
    hrest⟩ | ⟨hshort, hr⟩
  · have hlen : ((base.drop (s.current + 1)).take c.toNat).length = c.toNat := by
      simp only [textState, nameTake] at hfit
      rw [List.length_take, List.length_drop]
      omega
    rcases ih fuel' (Nat.lt_succ_of_le hle) _ _ (atLabels_text hs hlen) hrest with
      ⟨t, labels, own, rfl, hread⟩ | hrefused
    · refine .inl ⟨t, _, _, rfl, .label hc hpos hlt hfit hread.found, ?_, hread.done, ?_, hread.len,
        ?_, ?_⟩
      · simpa using hread.fits
      · simpa using hread.ndata
      · simpa using hread.labels
      · rw [hread.cused]
        simp only [usedAfter, textState, nameTake]
        split
        · rfl
        · omega
    · refine .inr ⟨fun labels own hlabels => ?_, hrefused.failed⟩
      obtain ⟨-, labels', own', rfl, -, hrest'⟩ := hlabels.of_label hc hpos hlt
      simpa using hrefused.long labels' own' hrest'
  · refine .inr ⟨fun labels own hlabels => ?_, hr⟩
    obtain ⟨htext, -⟩ := hlabels.of_label hc hpos hlt
    simp only [textState, nameTake] at hshort
    omega

theorem outcome_pointer (hs : AtLabels prev s) (hc : base[s.current]? = some c)
    (hge : 192 ≤ c.toNat)
    (ih : ∀ fuel' < fuel + 1, ∀ prev' s', AtLabels prev' s' →
      loop (nameIter base nmax) fuel' s' = some r → Outcome base nmax prev' s' r)
    (h : loop (nameIter base nmax) (fuel + 1) s = some r) : Outcome base nmax prev s r := by
  rw [loop_next (nameIter_pointer hs hc hge)] at h
  cases fuel with
  | zero => cases h
  | succ fuel =>
    cases hb : base[s.current + 1]? with
    | none =>
      rw [loop_leave (nameIter_end (s := pointerState s c) hs.done hb)] at h
      obtain rfl := Option.some.inj h
      refine .inr ⟨fun labels own hlabels => ?_, fun t ht => ?_⟩
      · obtain ⟨-, b, -, hlow, -⟩ := hlabels.of_pointer hc hge
        rw [hb] at hlow
        cases hlow
      · obtain rfl := Option.some.inj ht
        exact hs.done
    | some b =>
      have hiter := nameIter_target (c := c) nmax hs hb
      by_cases hup : s.biggestPointer ≤ c.toNat % 64 * 256 + b.toNat
      · rw [if_pos hup] at hiter
        rw [loop_leave hiter] at h
        obtain rfl := Option.some.inj h
        refine .inr ⟨fun labels own hlabels => ?_, nofun⟩
        obtain ⟨-, b', -, hlow, hdown, -⟩ := hlabels.of_pointer hc hge
        obtain rfl := Option.some.inj (hb.symm.trans hlow)
        omega
      · rw [if_neg hup] at hiter
        rw [loop_next hiter] at h
        rcases ih fuel (by omega) prev _ (atLabels_target hs) h with
          ⟨t, labels, own, rfl, hread⟩ | hrefused
        · refine .inl ⟨t, labels, 2, rfl, .pointer hc hge hb (not_le.1 hup) hread.found, hread.fits,
            hread.done, hread.ndata, hread.len, hread.labels, ?_⟩
          rw [hread.cused, targetState, usedAfter, if_pos rfl]
        · refine .inr ⟨fun labels own hlabels => ?_, hrefused.failed⟩
          obtain ⟨-, b', own', hlow, -, hrest'⟩ := hlabels.of_pointer hc hge
          obtain rfl := Option.some.inj (hb.symm.trans hlow)
          exact hrefused.long labels own' hrest'

theorem nameLoop_outcome (hs : AtLabels prev s) (h : loop (nameIter base nmax) fuel s = some r) :
    Outcome base nmax prev s r := by
  induction fuel using Nat.strong_induction_on generalizing prev s with
  | _ fuel ih =>
    cases fuel with
    | zero => cases h
    | succ fuel =>
      have hsmaller : ∀ fuel' < fuel + 1, ∀ prev' s', AtLabels prev' s' →
          loop (nameIter base nmax) fuel' s' = some r → Outcome base nmax prev' s' r :=
        fun fuel' hlt prev' s' hs' h' => ih fuel' hlt hs' h'
      cases hc : base[s.current]? with
      | none => exact outcome_end hs hc h
      | some c =>
        by_cases hzero : c.toNat = 0
        · rw [← UInt8.toNat_zero, UInt8.toNat_inj] at hzero
          exact outcome_root hs (hzero ▸ hc) h
        by_cases hlabel : c.toNat < 64
        · exact outcome_label hs hc (by omega) hlabel hsmaller h
        by_cases hreserved : c.toNat < 192
        · exact outcome_reserved hs hc (by omega) hreserved h
        · exact outcome_pointer hs hc (by omega) hsmaller h

end Items

structure Room (nmax : ℕ) (s : NameState) : Prop where
  count : s.ndata.length + s.n + 1 ≤ s.nused ∨ s.labels = 0 ∧ s.ndata = [] ∧ s.n = 0
  limit : s.nused ≤ nmax
  text : s.state = .ordinary → s.done = false → 0 < s.n
  idle : s.state ≠ .ordinary → s.n = 0

theorem room_init (nmax pos : ℕ) : Room nmax (nameInit pos) :=
  ⟨.inr ⟨rfl, rfl, rfl⟩, Nat.zero_le _, nofun, fun _ => rfl⟩

theorem Room.start {s s' : NameState} {c : ℕ} (hs : Room nmax s) (hstate : s.state = .start)
    (h : nameStart nmax s c = .next s') : Room nmax s' := by
  have hidle := hs.idle (by rw [hstate]; decide)
  have hcount := hs.count
  rw [nameStart] at h
  by_cases hlt : c < 64
  · rw [if_pos hlt] at h
    by_cases hfull : nmax < s.nused + c + 1
    · rw [if_pos hfull] at h
      cases h
    rw [if_neg hfull] at h
    obtain rfl := Iter.next.inj h
    refine ⟨?_, not_lt.1 hfull, ?_, fun hne => absurd rfl hne⟩
    · rcases hcount with hcount | ⟨hlabels, hnil, hn⟩
      · left
        have hdot : ∀ dot : Prop, [Decidable dot] →
            (if dot then s.ndata ++ [46] else s.ndata).length ≤ s.ndata.length + 1 := by
          intro dot _
          split <;> simp
        have hlength := hdot ((if c ≠ 0 then s.labels + 1 else s.labels) ≠ 1 ∧ c ≠ 0)
        dsimp only
        omega
      · by_cases hc : c = 0
        · simp [hlabels, hnil, hc]
        · simp [hlabels, hnil, hc]
    · intro _ hnonzero
      simpa [Nat.pos_iff_ne_zero] using hnonzero
  · rw [if_neg hlt] at h
    by_cases hreserved : 128 ≤ c ∧ c < 192
    · rw [if_pos hreserved] at h
      cases h
    rw [if_neg hreserved] at h
    by_cases hpointer : 192 ≤ c
    · rw [if_pos hpointer] at h
      obtain rfl := Iter.next.inj h
      exact ⟨hcount, hs.limit, fun hordinary => FwState.noConfusion hordinary, fun _ => hidle⟩
    · rw [if_neg hpointer] at h
      cases h

theorem Room.byte {s s' : NameState} {b : UInt8} (hs : Room nmax s) (hdone : s.done = false)
    (h : nameByte nmax s b = .next s') : Room nmax s' := by
  rw [nameByte] at h
  split at h
  next hstate => exact hs.start hstate h
  next hstate =>
    have hpos := hs.text hstate hdone
    obtain rfl := Iter.next.inj h
    refine ⟨.inl ?_, hs.limit, ?_, ?_⟩
    · rcases hs.count with hcount | ⟨-, -, hn⟩
      · simp only [List.length_append, List.length_singleton]
        omega
      · omega
    · intro hordinary _
      dsimp only at hordinary ⊢
      by_contra hzero
      rw [if_pos (by omega)] at hordinary
      cases hordinary
    · intro hne
      by_contra hlast
      exact hne (if_neg hlast)
  next hstate =>
    dsimp only at h
    split at h
    · cases h
    obtain rfl := Iter.next.inj h
    have hidle := hs.idle (by rw [hstate]; decide)
    exact ⟨hs.count, hs.limit, fun hordinary => FwState.noConfusion hordinary, fun _ => hidle⟩

theorem Room.iter {s s' : NameState} (hs : Room nmax s) (h : nameIter base nmax s = .next s') :
    Room nmax s' := by
  cases hdone : s.done with
  | true => simp [nameIter, hdone] at h
  | false =>
    obtain ⟨-, b, hb⟩ := nameIter_next h
    exact Room.byte (s := nameTake s) ⟨hs.count, hs.limit, hs.text, hs.idle⟩ hdone hb

theorem Room.length_lt {s : NameState} (hs : Room nmax s) (hmax : nmax ≤ 255) :
    s.ndata.length < 255 := by
  have hlimit := hs.limit
  rcases hs.count with hcount | ⟨-, hnil, -⟩
  · omega
  · simp [hnil]

theorem cstrBytes_eq_iff (text : List UInt8) :
    (∀ residue, cstrBytes residue text text.length = text) ↔ 0 ∉ text.dropLast := by
  have hsplit : text.takeWhile (· ≠ 0) ++ text.dropWhile (· ≠ 0) = text :=
    List.takeWhile_append_dropWhile
  have hclear : ∀ b ∈ text.takeWhile (· ≠ 0), b ≠ 0 := fun b hb => by
    simpa using List.mem_takeWhile_imp hb
  generalize hcstr : text.takeWhile (· ≠ 0) = cstr at hsplit hclear
  cases hrest : text.dropWhile (· ≠ 0) with
  | nil =>
    rw [hrest, List.append_nil] at hsplit
    refine ⟨fun _ hmem => hclear 0 (hsplit ▸ List.mem_of_mem_dropLast hmem) rfl,
      fun _ residue => ?_⟩
    rw [cstrBytes, hcstr, hsplit, List.take_left]
  | cons b rest =>
    obtain rfl : b = 0 := by
      have hfirst := List.head?_dropWhile_not (· ≠ (0 : UInt8)) text
      rw [hrest] at hfirst
      simpa using hfirst
    rw [hrest] at hsplit
    have hread : ∀ residue, cstrBytes residue text text.length
        = cstr ++ 0 :: ((List.range text.length).map residue).take rest.length := by
      intro residue
      have hlength : text.length = cstr.length + (rest.length + 1) := by rw [← hsplit]; simp
      rw [cstrBytes, hcstr, hlength, List.take_length_add_append, List.take_succ_cons]
    cases rest with
    | nil =>
      refine ⟨fun _ => ?_, fun _ residue => ?_⟩
      · rw [← hsplit, List.dropLast_concat]
        exact fun hmem => hclear 0 hmem rfl
      · rw [hread]
        exact hsplit
    | cons last rest =>
      refine ⟨fun h => ?_, fun h => absurd ?_ h⟩
      · -- two pools that differ there leave different bytes behind the string
        have hzero := h fun _ => 0
        have hone := h fun _ => 1
        rw [hread, ← hsplit, List.append_cancel_left_eq, List.cons.injEq] at hzero hone
        obtain ⟨k, hk⟩ : ∃ k, (cstr ++ 0 :: last :: rest).length = k + 1 :=
          ⟨_, by simp [← Nat.add_assoc]; rfl⟩
        rw [hk, List.range_succ_eq_map] at hzero hone
        simp only [List.map_cons, List.length_cons, List.take_succ_cons,
          List.cons.injEq] at hzero hone
        exact absurd (hzero.2.1.trans hone.2.1.symm) (by decide)
      · rw [← hsplit, List.dropLast_append_of_ne_nil (by simp)]
        simp

theorem dnsNameParse_done {residue : ℕ → ℕ → UInt8} {msg : List UInt8} {pos : ℕ} {t : NameState}
    (hloop : loop (nameIter msg (min msg.length DNS_NAME_MAXLEN)) (nameFuel msg pos) (nameInit pos)
      = some (some t)) (hdone : t.done = true) :
    ∃ name, dnsNameParse residue ⟨msg, pos⟩ = some (name, ⟨msg, pos + t.cused⟩) ∧
      name.ndata = cstrBytes (residue pos) t.ndata (t.len % 2 ^ 16) ∧
        name.labels = t.labels.toUInt16 := by
  simp only [dnsNameParse, hloop, hdone, if_true]
  exact ⟨_, rfl, rfl, rfl⟩

theorem length_le_labelBytes (labels : List (List UInt8)) : labels.length ≤ labelBytes labels := by
  induction labels with
  | nil => exact le_rfl
  | cons text labels ih =>
    rw [labelBytes_cons, List.length_cons]
    omega

theorem dnsNameParse_outcome (residue : ℕ → ℕ → UInt8) (msg : List UInt8) (pos : ℕ) :
    (∃ labels own name, dnsNameParse residue ⟨msg, pos⟩ = some (name, ⟨msg, pos + own⟩) ∧
      LabelsAt msg pos pos labels own ∧ labelBytes labels + 1 ≤ min msg.length DNS_NAME_MAXLEN ∧
      name.ndata = cstrBytes (residue pos) (joinDots labels) (joinDots labels).length ∧
      name.labels.toNat = labels.length) ∨
    (dnsNameParse residue ⟨msg, pos⟩ = none ∧ ∀ labels own, LabelsAt msg pos pos labels own →
      min msg.length DNS_NAME_MAXLEN < labelBytes labels + 1) := by
  obtain ⟨r, hr⟩ := nameLoop_ends msg (min msg.length DNS_NAME_MAXLEN) pos
  rcases nameLoop_outcome (atLabels_init pos) hr with ⟨t, labels, own, rfl, hread⟩ | hrefused
  · have hfits := hread.fits
    have hndata := hread.ndata
    have hlabels := hread.labels
    rw [List.nil_append] at hfits hndata hlabels
    have hlength := length_joinDots_le labels
    have hcount := length_le_labelBytes labels
    have hmax : min msg.length DNS_NAME_MAXLEN ≤ 255 := Nat.min_le_right _ _
    obtain ⟨name, hname, hdata, hnumber⟩ := @dnsNameParse_done residue _ _ _ hr hread.done
    rw [hread.cused] at hname
    rw [hread.len, hndata, Nat.mod_eq_of_lt (by omega)] at hdata
    refine .inl ⟨labels, own, name, ?_, hread.found, hfits, hdata, ?_⟩
    · rw [hname, usedAfter, if_neg (by simp [nameInit])]
      simp [nameInit]
    · rw [hnumber, hlabels]
      simp
      omega
  · refine .inr ⟨?_, fun labels own hlabels => by simpa using hrefused.long labels own hlabels⟩
    simp only [dnsNameParse, hr]
    cases r with
    | none => rfl
    | some t => simp [hrefused.failed t rfl]

/-- The parse at a position, for one pool: the loop ends, reads the message and writes the
buffer inside their bounds, and a name that is stored is the one that stands in the message. -/
structure Decodes (residue : ℕ → ℕ → UInt8) (msg : List UInt8) (pos : ℕ) : Prop where
  ends : (loop (nameIter msg (min msg.length DNS_NAME_MAXLEN)) (nameFuel msg pos)
    (nameInit pos)).isSome
  reads : ∀ s s', Passes (nameIter msg (min msg.length DNS_NAME_MAXLEN)) (nameInit pos) s →
    nameIter msg (min msg.length DNS_NAME_MAXLEN) s = .next s' → s.current < msg.length
  writes : ∀ s, Passes (nameIter msg (min msg.length DNS_NAME_MAXLEN)) (nameInit pos) s →
    s.ndata.length < DNS_NAME_MAXLEN
  stores : ∀ name din, dnsNameParse residue ⟨msg, pos⟩ = some (name, din) →
    ∃ labels own, LabelsAt msg pos pos labels own ∧ labelBytes labels + 1 ≤ DNS_NAME_MAXLEN ∧
      name.ndata = joinDots labels ∧ name.labels.toNat = labels.length ∧ din = ⟨msg, pos + own⟩

theorem decodes_iff_stores {residue : ℕ → ℕ → UInt8} {msg : List UInt8} {pos : ℕ} :
    Decodes residue msg pos ↔ ∀ labels own, LabelsAt msg pos pos labels own →
      labelBytes labels + 1 ≤ min msg.length DNS_NAME_MAXLEN →
      cstrBytes (residue pos) (joinDots labels) (joinDots labels).length = joinDots labels := by
  constructor
  · intro h labels own hlabels hfits
    rcases dnsNameParse_outcome residue msg pos with
      ⟨labels₁, own₁, name, hparse, hlabels₁, -, hdata, -⟩ | ⟨-, hlong⟩
    · obtain ⟨labels₂, own₂, hlabels₂, -, hstored, -⟩ := h.stores _ _ hparse
      obtain ⟨rfl, -⟩ := hlabels.unique hlabels₁
      obtain ⟨rfl, -⟩ := hlabels.unique hlabels₂
      rw [← hdata, hstored]
    · exact absurd hfits (not_le.2 (hlong labels own hlabels))
  · intro h
    refine ⟨?_, fun s s' _ hnext => (nameIter_next hnext).1, fun s hs => ?_,
      fun name din hparse => ?_⟩
    · obtain ⟨r, hr⟩ := nameLoop_ends msg (min msg.length DNS_NAME_MAXLEN) pos
      rw [hr]
      rfl
    · have hroom := hs.invariant Room.iter (room_init _ pos)
      exact hroom.length_lt (Nat.min_le_right _ _)
    · rcases dnsNameParse_outcome residue msg pos with
        ⟨labels, own, name', hparse', hlabels, hfits, hdata, hnumber⟩ | ⟨hnone, -⟩
      · rw [hparse'] at hparse
        obtain ⟨rfl, rfl⟩ := Prod.mk.inj (Option.some.inj hparse)
        exact ⟨labels, own, hlabels, hfits.trans (Nat.min_le_right _ _),
          hdata.trans (h labels own hlabels hfits), hnumber, rfl⟩
      · rw [hnone] at hparse
        cases hparse

/-- A name is decoded, whatever the pool holds, exactly when no byte of the dotted name before
its last is zero: the copy ends at the first zero, and the length does not. -/
theorem decodes_iff (msg : List UInt8) (pos : ℕ) :
    (∀ residue, Decodes residue msg pos) ↔
      ∀ labels own, LabelsAt msg pos pos labels own →
        labelBytes labels + 1 ≤ min msg.length DNS_NAME_MAXLEN →
          0 ∉ (joinDots labels).dropLast := by
  simp only [decodes_iff_stores]
  constructor
  · intro h labels own hlabels hfits
    exact (cstrBytes_eq_iff _).1 fun residue => h (fun _ => residue) labels own hlabels hfits
  · intro h residue labels own hlabels hfits
    exact (cstrBytes_eq_iff _).2 (h labels own hlabels hfits) (residue pos)

/-- A name of one label with the bytes zero and `a`. -/
def zeroName : List UInt8 := [2, 0, 97, 0]

theorem zeroName_not_decoded : ¬ ∀ residue, Decodes residue zeroName 0 := by
  intro h
  have hlabels : LabelsAt zeroName 0 0 [[0, 97]] 4 := .label (c := 2) rfl (by decide) (by decide)
    (by decide) (.root rfl)
  have hstored := decodes_iff_stores.1 (h fun _ _ => 0) _ _ hlabels (by decide)
  exact absurd hstored (by decide)

end CloudHands.Dns
