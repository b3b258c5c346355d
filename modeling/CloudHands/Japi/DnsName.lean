import CloudHands.Lib.Loop

/-!
# DNS names on the Java side

The constructor `Name(DNSDataInput)` reads a name from the data of a record. Pointers are
offsets in the message and are translated by the position of the record; one that leads
behind itself ends the loop. One that leads before itself is followed, and the labels behind
it may lead back to the same pointer.
-/

namespace CloudHands.Japi

open Lib

/-- `BasicDNSDataInput` over the data of a record; the limit is always at the capacity. -/
structure BasicDNSDataInput where
  data : List UInt8
  basePos : ℕ
  position : ℕ
  savedPos : Option ℕ

namespace BasicDNSDataInput

def remaining (din : BasicDNSDataInput) : ℕ := din.data.length - din.position

def current (din : BasicDNSDataInput) : ℕ := din.position

/-- None is a `ParseException`. -/
def readU8 (din : BasicDNSDataInput) : Option (ℕ × BasicDNSDataInput) :=
  din.data[din.position]?.map fun b => (b.toNat, { din with position := din.position + 1 })

def readByteArray (din : BasicDNSDataInput) (len : ℕ) : Option (List UInt8 × BasicDNSDataInput) :=
  if din.remaining < len then none
  else some ((din.data.drop din.position).take len, { din with position := din.position + len })

/-- None is an `IllegalArgumentException`. -/
def jump (din : BasicDNSDataInput) (index : ℕ) : Option BasicDNSDataInput :=
  if din.data.length ≤ index then none else some { din with position := index }

def save (din : BasicDNSDataInput) : BasicDNSDataInput := { din with savedPos := some din.position }

def restore (din : BasicDNSDataInput) : BasicDNSDataInput :=
  { din with position := din.savedPos.getD din.position, savedPos := none }

end BasicDNSDataInput

def LABEL_NORMAL : ℕ := 0
def LABEL_COMPRESSION : ℕ := 0xC0
def LABEL_MASK : ℕ := 0xC0

structure NameLoop where
  din : BasicDNSDataInput
  sb : List UInt8
  done : Bool
  savedState : Bool

inductive NameOutcome
  | name (text : List UInt8) (din : BasicDNSDataInput)
  | parseException
  | illegalArgumentException

def nameOf (s : NameLoop) : NameOutcome :=
  .name (if s.sb.getLast? = some 46 then s.sb.dropLast else s.sb)
    (if s.savedState then s.din.restore else s.din)

def labelNormal (s : NameLoop) (len : ℕ) (din : BasicDNSDataInput) : Iter NameLoop NameOutcome :=
  if len = 0 then .next { s with din, done := true }
  else
    match din.readByteArray len with
    | none => .leave .parseException
    | some (bytes, din) => .next { s with din, sb := s.sb ++ bytes ++ [46] }

def labelCompression (s : NameLoop) (len : ℕ) (din : BasicDNSDataInput) :
    Iter NameLoop NameOutcome :=
  match din.readU8 with
  | none => .leave .parseException
  | some (low, din) =>
    let pos := low + (len &&& 0x3F) <<< 8
    if din.basePos = 0 ∨ pos ≤ din.basePos then .next { s with din, done := true }
    else
      let pos := pos - din.basePos - 1
      let done := s.done || decide (din.current - 2 ≤ pos)
      let din := if s.savedState then din else din.save
      match din.jump pos with
      | none => .leave .illegalArgumentException
      | some din => .next { s with din, done, savedState := true }

def nameIter (s : NameLoop) : Iter NameLoop NameOutcome :=
  if s.done ∨ s.din.remaining = 0 then .leave (nameOf s)
  else
    match s.din.readU8 with
    | none => .leave .parseException
    | some (len, din) =>
      if len &&& LABEL_MASK = LABEL_NORMAL then labelNormal s len din
      else if len &&& LABEL_MASK = LABEL_COMPRESSION then labelCompression s len din
      else .next { s with din }

def nameStart (data : List UInt8) (basePos position : ℕ) : NameLoop :=
  ⟨⟨data, basePos, position, none⟩, [], false, false⟩

/-- The constructor performs finitely many iterations, and returns or throws the declared
exception. -/
def Ends (data : List UInt8) (basePos position : ℕ) : Prop :=
  ∃ fuel r, loop nameIter fuel (nameStart data basePos position) = some r ∧
    r ≠ .illegalArgumentException

section Graph

variable (data : List UInt8) (basePos : ℕ)

/-- The index in the data that the pointer at `p` leads to, when it is translated. -/
def targetAt (p : ℕ) : Option ℕ :=
  match data[p]?, data[p + 1]? with
  | some high, some low =>
    let pos := high.toNat % 64 * 256 + low.toNat
    if 192 ≤ high.toNat ∧ basePos ≠ 0 ∧ basePos < pos then some (pos - basePos - 1) else none
  | _, _ => none

/-- Behind the label or pointer at `p` the reading goes on at `q`: a label leads behind its
text, a byte of no kind behind itself, and a pointer to a target before itself. -/
def Leads (p q : ℕ) : Prop :=
  ∃ c, data[p]? = some c ∧
    (0 < c.toNat ∧ c.toNat < 64 ∧ q = p + 1 + c.toNat ∧ q ≤ data.length ∨
      64 ≤ c.toNat ∧ c.toNat < 192 ∧ q = p + 1 ∨
      192 ≤ c.toNat ∧ targetAt data basePos p = some q ∧ q < p)

/-- The pointer at `p` leads out of the data. -/
def LeadsOut (p : ℕ) : Prop := ∃ q, targetAt data basePos p = some q ∧ data.length ≤ q

end Graph

theorem labelMask_normal (b : UInt8) : b.toNat &&& LABEL_MASK = LABEL_NORMAL ↔ b.toNat < 64 := by
  have hall : ∀ n < 256, n &&& LABEL_MASK = LABEL_NORMAL ↔ n < 64 := by decide +kernel
  exact hall b.toNat b.toNat_lt

theorem labelMask_compression (b : UInt8) :
    b.toNat &&& LABEL_MASK = LABEL_COMPRESSION ↔ 192 ≤ b.toNat := by
  have hall : ∀ n < 256, n &&& LABEL_MASK = LABEL_COMPRESSION ↔ 192 ≤ n := by decide +kernel
  exact hall b.toNat b.toNat_lt

theorem pointer_value (high low : UInt8) :
    low.toNat + (high.toNat &&& 0x3F) <<< 8 = high.toNat % 64 * 256 + low.toNat := by
  have hall : ∀ n < 256, n &&& 0x3F = n % 64 := by decide +kernel
  rw [hall high.toNat high.toNat_lt, Nat.shiftLeft_eq]
  omega

structure ReadsAt (data : List UInt8) (basePos p : ℕ) (s : NameLoop) : Prop where
  data : s.din.data = data
  basePos : s.din.basePos = basePos
  position : s.din.position = p

variable {data : List UInt8} {basePos p q : ℕ} {s s' : NameLoop} {b : UInt8}

theorem nameIter_done (hdone : s.done = true) : nameIter s = .leave (nameOf s) := by
  rw [nameIter, if_pos (.inl hdone)]

theorem nameIter_end (hs : ReadsAt data basePos p s) (hend : data[p]? = none) :
    nameIter s = .leave (nameOf s) := by
  rw [List.getElem?_eq_none_iff] at hend
  rw [nameIter, if_pos]
  right
  rw [BasicDNSDataInput.remaining, hs.data, hs.position]
  omega

def behindByte (s : NameLoop) : BasicDNSDataInput := { s.din with position := s.din.position + 1 }

theorem remaining_behindByte (hs : ReadsAt data basePos p s) :
    (behindByte s).remaining = data.length - (p + 1) := by
  simp [BasicDNSDataInput.remaining, behindByte, hs.data, hs.position]

theorem nameIter_byte (hs : ReadsAt data basePos p s) (hdone : s.done = false)
    (hb : data[p]? = some b) :
    nameIter s =
      if b.toNat < 64 then labelNormal s b.toNat (behindByte s)
      else if 192 ≤ b.toNat then labelCompression s b.toNat (behindByte s)
      else .next { s with din := behindByte s } := by
  have hread : s.din.readU8 = some (b.toNat, behindByte s) := by
    simp [BasicDNSDataInput.readU8, hs.data, hs.position, hb, behindByte]
  have hlt := (List.getElem?_eq_some_iff.1 hb).1
  have hleft : ¬ (s.done ∨ s.din.remaining = 0) := by
    rw [hdone, BasicDNSDataInput.remaining, hs.data, hs.position]
    simp
    omega
  rw [nameIter, if_neg hleft, hread]
  simp only [labelMask_normal, labelMask_compression]

theorem nameIter_label (hs : ReadsAt data basePos p s) (hdone : s.done = false)
    (hb : data[p]? = some b)
    (hpos : 0 < b.toNat) (hlt : b.toNat < 64) (htext : p + 1 + b.toNat ≤ data.length) :
    ∃ s', nameIter s = .next s' ∧ ReadsAt data basePos (p + 1 + b.toNat) s' ∧ s'.done = false := by
  have hfits : ¬ (behindByte s).remaining < b.toNat := by
    rw [remaining_behindByte hs]
    omega
  rw [nameIter_byte hs hdone hb, if_pos hlt, labelNormal, if_neg (by omega),
    BasicDNSDataInput.readByteArray, if_neg hfits]
  exact ⟨_, rfl, ⟨hs.data, hs.basePos, by simp [behindByte, hs.position]⟩, hdone⟩

theorem nameIter_text_short (hs : ReadsAt data basePos p s) (hdone : s.done = false)
    (hb : data[p]? = some b) (hpos : 0 < b.toNat) (hlt : b.toNat < 64)
    (htext : data.length < p + 1 + b.toNat) : nameIter s = .leave .parseException := by
  have hshort : (behindByte s).remaining < b.toNat := by
    rw [remaining_behindByte hs]
    omega
  rw [nameIter_byte hs hdone hb, if_pos hlt, labelNormal, if_neg (by omega),
    BasicDNSDataInput.readByteArray, if_pos hshort]

theorem nameIter_skip (hs : ReadsAt data basePos p s) (hdone : s.done = false)
    (hb : data[p]? = some b)
    (hge : 64 ≤ b.toNat) (hlt : b.toNat < 192) :
    ∃ s', nameIter s = .next s' ∧ ReadsAt data basePos (p + 1) s' ∧ s'.done = false := by
  rw [nameIter_byte hs hdone hb, if_neg (by omega), if_neg (by omega)]
  exact ⟨_, rfl, ⟨hs.data, hs.basePos, by simp [behindByte, hs.position]⟩, hdone⟩

theorem nameIter_pointer (hs : ReadsAt data basePos p s) (hdone : s.done = false)
    (hb : data[p]? = some b)
    (hge : 192 ≤ b.toNat) :
    nameIter s =
      match data[p + 1]? with
      | none => .leave .parseException
      | some _ =>
        match targetAt data basePos p with
        | none => .next { s with din := { s.din with position := p + 2 }, done := true }
        | some q =>
          if data.length ≤ q then .leave .illegalArgumentException
          else .next { s with
            din := { s.din with
              position := q
              savedPos := if s.savedState then s.din.savedPos else some (p + 2) }
            done := decide (p ≤ q)
            savedState := true } := by
  have hread : (behindByte s).readU8 = data[p + 1]?.map fun low =>
      (low.toNat, { s.din with position := p + 2 }) := by
    simp [BasicDNSDataInput.readU8, behindByte, hs.data, hs.position]
  rw [nameIter_byte hs hdone hb, if_neg (by omega), if_pos hge, labelCompression, hread]
  cases hlow : data[p + 1]? with
  | none => rfl
  | some low =>
    simp only [Option.map_some, pointer_value, hs.basePos]
    by_cases hkept : basePos = 0 ∨ b.toNat % 64 * 256 + low.toNat ≤ basePos
    · have htarget : targetAt data basePos p = none := by
        simp only [targetAt, hb, hlow]
        rw [if_neg (by omega)]
      rw [if_pos hkept, htarget]
    · have htarget :
          targetAt data basePos p = some (b.toNat % 64 * 256 + low.toNat - basePos - 1) := by
        simp only [targetAt, hb, hlow]
        rw [if_pos (by omega)]
      rw [if_neg hkept, htarget]
      generalize b.toNat % 64 * 256 + low.toNat - basePos - 1 = q
      by_cases hout : data.length ≤ q <;> cases s.savedState <;>
        simp [BasicDNSDataInput.jump, BasicDNSDataInput.save, BasicDNSDataInput.current, hs.data,
          hdone, hout]

theorem Leads.next (hs : ReadsAt data basePos p s) (hdone : s.done = false)
    (h : Leads data basePos p q) :
    ∃ s', nameIter s = .next s' ∧ ReadsAt data basePos q s' ∧ s'.done = false := by
  obtain ⟨c, hc, ⟨hpos, hlt, rfl, htext⟩ | ⟨hge, hlt, rfl⟩ | ⟨hge, htarget, hback⟩⟩ := h
  · exact nameIter_label hs hdone hc hpos hlt htext
  · exact nameIter_skip hs hdone hc hge hlt
  · have hinside := (List.getElem?_eq_some_iff.1 hc).1
    have hiter := nameIter_pointer hs hdone hc hge
    cases hlow : data[p + 1]? with
    | none => simp [targetAt, hc, hlow] at htarget
    | some low =>
      simp only [hlow, htarget] at hiter
      rw [if_neg (by omega)] at hiter
      exact ⟨_, hiter, ⟨hs.data, hs.basePos, rfl⟩, decide_eq_false (by omega)⟩

theorem LeadsOut.leave (hs : ReadsAt data basePos p s) (hdone : s.done = false)
    (h : LeadsOut data basePos p) : nameIter s = .leave .illegalArgumentException := by
  obtain ⟨q, htarget, hout⟩ := h
  cases hc : data[p]? with
  | none => simp [targetAt, hc] at htarget
  | some c =>
    cases hlow : data[p + 1]? with
    | none => simp [targetAt, hc, hlow] at htarget
    | some low =>
      have hge : 192 ≤ c.toNat := by
        simp only [targetAt, hc, hlow] at htarget
        split at htarget
        next hfollowed => exact hfollowed.1
        next => cases htarget
      have hiter := nameIter_pointer hs hdone hc hge
      simp only [hlow, htarget, if_pos hout] at hiter
      exact hiter

theorem nameIter_next (hs : ReadsAt data basePos p s) (h : nameIter s = .next s') :
    ∃ q, ReadsAt data basePos q s' ∧ (s'.done = false → Leads data basePos p q) := by
  cases hdone : s.done with
  | true =>
    rw [nameIter_done hdone] at h
    cases h
  | false =>
    cases hb : data[p]? with
    | none =>
      rw [nameIter_end hs hb] at h
      cases h
    | some b =>
      by_cases hlabel : b.toNat < 64
      · by_cases hzero : b.toNat = 0
        · rw [nameIter_byte hs hdone hb, if_pos hlabel, labelNormal, if_pos hzero] at h
          obtain rfl := Iter.next.inj h
          exact ⟨p + 1, ⟨hs.data, hs.basePos, by simp [behindByte, hs.position]⟩, nofun⟩
        · by_cases htext : p + 1 + b.toNat ≤ data.length
          · obtain ⟨s₁, hiter, hs₁, -⟩ := nameIter_label hs hdone hb (by omega) hlabel htext
            obtain rfl := Iter.next.inj (hiter.symm.trans h)
            exact ⟨_, hs₁, fun _ => ⟨b, hb, .inl ⟨by omega, hlabel, rfl, htext⟩⟩⟩
          · rw [nameIter_text_short hs hdone hb (by omega) hlabel (by omega)] at h
            cases h
      · by_cases hpointer : 192 ≤ b.toNat
        · rw [nameIter_pointer hs hdone hb hpointer] at h
          cases hlow : data[p + 1]? with
          | none =>
            rw [hlow] at h
            cases h
          | some low =>
            simp only [hlow] at h
            cases htarget : targetAt data basePos p with
            | none =>
              rw [htarget] at h
              obtain rfl := Iter.next.inj h
              exact ⟨p + 2, ⟨hs.data, hs.basePos, rfl⟩, nofun⟩
            | some q =>
              simp only [htarget] at h
              split at h
              · cases h
              obtain rfl := Iter.next.inj h
              refine ⟨q, ⟨hs.data, hs.basePos, rfl⟩, fun hback =>
                ⟨b, hb, .inr (.inr ⟨hpointer, htarget, ?_⟩)⟩⟩
              exact not_le.1 (of_decide_eq_false hback)
        · obtain ⟨s₁, hiter, hs₁, -⟩ := nameIter_skip hs hdone hb (by omega) (by omega)
          obtain rfl := Iter.next.inj (hiter.symm.trans h)
          exact ⟨_, hs₁, fun _ => ⟨b, hb, .inr (.inl ⟨by omega, by omega, rfl⟩)⟩⟩

theorem nameIter_leave (hs : ReadsAt data basePos p s)
    (h : nameIter s = .leave .illegalArgumentException) : LeadsOut data basePos p := by
  cases hdone : s.done with
  | true =>
    rw [nameIter_done hdone] at h
    cases h
  | false =>
    cases hb : data[p]? with
    | none =>
      rw [nameIter_end hs hb] at h
      cases h
    | some b =>
      by_cases hpointer : 192 ≤ b.toNat
      · rw [nameIter_pointer hs hdone hb hpointer] at h
        cases hlow : data[p + 1]? with
        | none =>
          rw [hlow] at h
          cases h
        | some low =>
          simp only [hlow] at h
          cases htarget : targetAt data basePos p with
          | none =>
            rw [htarget] at h
            cases h
          | some q =>
            simp only [htarget] at h
            split at h
            next hout => exact ⟨q, htarget, hout⟩
            next => cases h
      · rw [nameIter_byte hs hdone hb, if_neg hpointer] at h
        split at h
        · rw [labelNormal] at h
          split at h
          · cases h
          split at h <;> cases h
        · cases h

section Ending

open Relation

theorem Leads.le (h : Leads data basePos p q) : q ≤ data.length := by
  obtain ⟨c, hc, ⟨-, -, -, htext⟩ | ⟨-, -, rfl⟩ | ⟨-, -, hback⟩⟩ := h
  · exact htext
  · exact (List.getElem?_eq_some_iff.1 hc).1
  · exact hback.le.trans (List.getElem?_eq_some_iff.1 hc).1.le

theorem finite_reached (data : List UInt8) (basePos position : ℕ) :
    {p | ReflTransGen (Leads data basePos) position p}.Finite := by
  refine (((Set.finite_le_nat data.length).insert position)).subset fun p hp => ?_
  rcases ReflTransGen.cases_tail hp with rfl | ⟨r, -, hlast⟩
  · exact Set.mem_insert _ _
  · exact Set.mem_insert_of_mem _ hlast.le

def Reading (data : List UInt8) (basePos : ℕ) (s : NameLoop) : Prop :=
  ReadsAt data basePos s.din.position s ∧ s.done = false

theorem reading_start (data : List UInt8) (basePos position : ℕ) :
    Reading data basePos (nameStart data basePos position) := ⟨⟨rfl, rfl, rfl⟩, rfl⟩

theorem Reading.go (hs : Reading data basePos s) (h : Leads data basePos s.din.position q) :
    ∃ s', nameIter s = .next s' ∧ Reading data basePos s' ∧ s'.din.position = q := by
  obtain ⟨s', hiter, hs', hdone⟩ := h.next hs.1 hs.2
  exact ⟨s', hiter, ⟨⟨hs'.data, hs'.basePos, rfl⟩, hdone⟩, hs'.position⟩

theorem Reading.next (hs : Reading data basePos s) (h : nameIter s = .next s') :
    Reading data basePos s' ∧ Leads data basePos s.din.position s'.din.position ∨
      ∃ r, nameIter s' = .leave r := by
  obtain ⟨q, hs', hleads⟩ := nameIter_next hs.1 h
  cases hdone : s'.done with
  | true => exact .inr ⟨_, nameIter_done hdone⟩
  | false =>
    refine .inl ⟨⟨⟨hs'.data, hs'.basePos, rfl⟩, hdone⟩, ?_⟩
    rw [hs'.position]
    exact hleads hdone

theorem exists_passes_of_reached {position : ℕ} (h : ReflTransGen (Leads data basePos) position p) :
    ∃ s, Passes nameIter (nameStart data basePos position) s ∧ Reading data basePos s ∧
      s.din.position = p := by
  induction h with
  | refl => exact ⟨_, .start, reading_start data basePos position, rfl⟩
  | tail _ hedge ih =>
    obtain ⟨s, hpasses, hs, rfl⟩ := ih
    obtain ⟨s', hiter, hs', hpos⟩ := hs.go hedge
    exact ⟨s', hpasses.next hiter, hs', hpos⟩

theorem reached_of_passes {position : ℕ} (h : Passes nameIter (nameStart data basePos position) s) :
    ReadsAt data basePos s.din.position s ∧
      (s.done = false → ReflTransGen (Leads data basePos) position s.din.position) := by
  let inv : NameLoop → Prop := fun s => ReadsAt data basePos s.din.position s ∧
    (s.done = false → ReflTransGen (Leads data basePos) position s.din.position)
  have hstart : inv (nameStart data basePos position) := ⟨⟨rfl, rfl, rfl⟩, fun _ => .refl⟩
  suffices hinv : inv s from hinv
  refine Passes.invariant ?_ hstart h
  rintro s s' ⟨hs, hreached⟩ hiter
  obtain ⟨q, hs', hleads⟩ := nameIter_next hs hiter
  refine ⟨⟨hs'.data, hs'.basePos, rfl⟩, fun hdone => ?_⟩
  have hgoing : s.done = false := by
    by_contra hne
    rw [nameIter_done (by simpa using hne)] at hiter
    cases hiter
  rw [hs'.position]
  exact (hreached hgoing).tail (hleads hdone)

/-- The constructor ends as declared exactly when no position that it comes to leads back to
itself or out of the data. -/
theorem ends_iff (data : List UInt8) (basePos position : ℕ) :
    Ends data basePos position ↔
      ∀ p, ReflTransGen (Leads data basePos) position p →
        ¬ TransGen (Leads data basePos) p p ∧ ¬ LeadsOut data basePos p := by
  constructor
  · rintro ⟨fuel, r, hr, hdeclared⟩ p hreached
    refine ⟨fun hcycle => ?_, fun hout => hdeclared ?_⟩
    · have hnone := loop_diverges_of_cycle (fun s => s.din.position) Reading.go
        (reading_start data basePos position) hreached hcycle fuel
      rw [hr] at hnone
      cases hnone
    · obtain ⟨s, hpasses, hs, rfl⟩ := exists_passes_of_reached hreached
      obtain ⟨fuel', hfuel'⟩ := hpasses.loop ⟨fuel, hr⟩
      exact loop_unique hfuel' (loop_leave (hout.leave hs.1 hs.2) 0)
  · intro h
    obtain ⟨fuel, r, hr⟩ := loop_ends_of_acyclic (fun s => s.din.position) Reading.next
      (reading_start data basePos position) (finite_reached data basePos position)
      fun p hp => (h p hp).1
    refine ⟨fuel, r, hr, ?_⟩
    rintro rfl
    obtain ⟨t, hpasses, hleave⟩ := exists_passes_leave .start hr
    obtain ⟨ht, hreached⟩ := reached_of_passes hpasses
    have hreading : t.done = false := by
      by_contra hne
      rw [nameIter_done (by simpa using hne)] at hleave
      cases hleave
    exact (h _ (hreached hreading)).2 (nameIter_leave ht hleave)

/-- The label `a` and a pointer to it, in the data of a record whose data begin at offset 31. -/
def loopingData : List UInt8 := [1, 97, 192, 31]

theorem loopingData_not_ends : ¬ Ends loopingData 30 0 := by
  rintro ⟨fuel, r, hr, -⟩
  have hlabel : Leads loopingData 30 0 2 := ⟨1, rfl, .inl (by decide)⟩
  have hback : Leads loopingData 30 2 0 := ⟨192, rfl, .inr (.inr (by decide))⟩
  have hnone := loop_diverges_of_cycle (fun s => s.din.position) Reading.go
    (reading_start loopingData 30 0) .refl ((TransGen.single hlabel).tail hback) fuel
  rw [hr] at hnone
  cases hnone

end Ending

end CloudHands.Japi
