import CloudHands.Lib.Memory
import CloudHands.Shm.BinFormat

/-!
# Readers over the memory

`ch_bin_format_t` as the pointers of the source, with the memory apart from them. A typed
read checks the end of its range, `ch_bf_bytes_read` only that the announced length stands
in it. A reader is given by the calls it makes, each with the results of the earlier ones.
-/

namespace CloudHands.Shm

open Lib

/-- The pointers of `ch_bin_format_t`. -/
structure Cursor where
  start : ℕ
  pos : ℕ
  stop : ℕ

/-- What `ch_bf_bytes_read` returns: the pointer, or null, and the announced length. -/
structure DataSlice where
  data : Option ℕ
  len : ℕ

/-- The slice is not null and `bs` stands there. -/
def DataSlice.Holds (mem : Memory) (s : DataSlice) (bs : List UInt8) : Prop :=
  ∃ p, s = ⟨some p, bs.length⟩ ∧ mem.read p bs.length = bs

namespace Cursor

def full (c : Cursor) (size : ℕ) : Bool := c.stop < c.pos + size

def initWithLen (start len : ℕ) : Cursor := ⟨start, start, start + len⟩

def advance (c : Cursor) (n : ℕ) : Cursor := { c with pos := c.pos + n }

def valueAt (mem : Memory) (width : ℕ) (c : Cursor) : ℕ := ofBigEndian (mem.read c.pos width)

/-- The family `ch_bf_uint8_read` to `ch_bf_uint64_read`, by the width in bytes. -/
def valueRead (mem : Memory) (width : ℕ) (c : Cursor) : ℕ × Cursor :=
  if c.full width then (0, c) else (c.valueAt mem width, c.advance width)

def bytesRead (mem : Memory) (c : Cursor) : DataSlice × Cursor :=
  if c.full 8 then (⟨none, 0⟩, c)
  else
    let (len, c) := c.valueRead mem 8
    (⟨some c.pos, len⟩, c.advance len)

@[simp] theorem pos_advance (c : Cursor) (n : ℕ) : (c.advance n).pos = c.pos + n := rfl

@[simp] theorem stop_advance (c : Cursor) (n : ℕ) : (c.advance n).stop = c.stop := rfl

@[simp] theorem advance_advance (c : Cursor) (m n : ℕ) :
    (c.advance m).advance n = c.advance (m + n) := by
  simp [advance, Nat.add_assoc]

@[simp] theorem advance_zero (c : Cursor) : c.advance 0 = c := rfl

theorem full_eq_true {c : Cursor} {n : ℕ} : c.full n = true ↔ c.stop < c.pos + n := by
  simp [full]

theorem full_eq_false {c : Cursor} {n : ℕ} : c.full n = false ↔ c.pos + n ≤ c.stop := by
  simp [full]

theorem valueRead_of_full {mem : Memory} {c : Cursor} {width : ℕ} (h : c.full width = true) :
    c.valueRead mem width = (0, c) := by
  simp [valueRead, h]

theorem valueRead_of_not_full {mem : Memory} {c : Cursor} {width : ℕ} (h : c.full width = false) :
    c.valueRead mem width = (c.valueAt mem width, c.advance width) := by
  simp [valueRead, h]

theorem bytesRead_of_full {mem : Memory} {c : Cursor} (h : c.full 8 = true) :
    c.bytesRead mem = (⟨none, 0⟩, c) := by
  simp [bytesRead, h]

theorem bytesRead_of_not_full {mem : Memory} {c : Cursor} (h : c.full 8 = false) :
    c.bytesRead mem =
      (⟨some (c.pos + 8), c.valueAt mem 8⟩, c.advance (8 + c.valueAt mem 8)) := by
  simp [bytesRead, h, valueRead_of_not_full h]

theorem stop_valueRead (c : Cursor) (mem : Memory) (width : ℕ) :
    (c.valueRead mem width).2.stop = c.stop := by
  cases h : c.full width with
  | true => rw [valueRead_of_full h]
  | false => rw [valueRead_of_not_full h, stop_advance]

theorem stop_bytesRead (c : Cursor) (mem : Memory) : (c.bytesRead mem).2.stop = c.stop := by
  cases h : c.full 8 with
  | true => rw [bytesRead_of_full h]
  | false => rw [bytesRead_of_not_full h, stop_advance]

theorem le_pos_valueRead (c : Cursor) (mem : Memory) (width : ℕ) :
    c.pos ≤ (c.valueRead mem width).2.pos := by
  cases h : c.full width with
  | true => rw [valueRead_of_full h]
  | false =>
    rw [valueRead_of_not_full h, pos_advance]
    exact Nat.le_add_right _ _

theorem le_pos_bytesRead (c : Cursor) (mem : Memory) : c.pos ≤ (c.bytesRead mem).2.pos := by
  cases h : c.full 8 with
  | true => rw [bytesRead_of_full h]
  | false =>
    rw [bytesRead_of_not_full h, pos_advance]
    exact Nat.le_add_right _ _

theorem le_data_bytesRead {c : Cursor} {mem : Memory} {p : ℕ} (h : p ∈ (c.bytesRead mem).1.data) :
    c.pos ≤ p := by
  cases hfull : c.full 8 with
  | true =>
    rw [bytesRead_of_full hfull] at h
    cases h
  | false =>
    rw [bytesRead_of_not_full hfull] at h
    obtain rfl := Option.some.inj h
    exact Nat.le_add_right _ _

/-- A read has been passed over: the cursor is before `x`, and less than eight bytes are
left of its range. -/
def Short (c : Cursor) (x : ℕ) : Prop := c.pos < x ∧ c.stop < c.pos + 8

theorem Short.mono {c : Cursor} {x y : ℕ} (h : c.Short x) (hle : x ≤ y) : c.Short y :=
  ⟨h.1.trans_le hle, h.2⟩

end Cursor

inductive Reading (α : Type) where
  | done (a : α)
  | value (width : ℕ) (next : ℕ → Reading α)
  | bytes (next : DataSlice → Reading α)

namespace Reading

variable {α β : Type}

protected def bind : Reading α → (α → Reading β) → Reading β
  | .done a, k => k a
  | .value width next, k => .value width fun v => (next v).bind k
  | .bytes next, k => .bytes fun s => (next s).bind k

instance : Monad Reading where
  pure := .done
  bind := Reading.bind

instance : LawfulMonad Reading := by
  refine LawfulMonad.mk' Reading ?_ (fun _ _ => rfl) ?_
  · intro α r
    change r.bind .done = r
    induction r with
    | done a => rfl
    | value width next ih => exact congrArg (Reading.value width) (funext ih)
    | bytes next ih => exact congrArg Reading.bytes (funext ih)
  · intro α β γ r f g
    change (r.bind f).bind g = r.bind fun a => (f a).bind g
    induction r with
    | done a => rfl
    | value width next ih => exact congrArg (Reading.value width) (funext ih)
    | bytes next ih => exact congrArg Reading.bytes (funext ih)

def uint8Read : Reading UInt8 := .value 1 fun v => .done v.toUInt8
def uint16Read : Reading UInt16 := .value 2 fun v => .done v.toUInt16
def uint32Read : Reading UInt32 := .value 4 fun v => .done v.toUInt32
def uint64Read : Reading UInt64 := .value 8 fun v => .done v.toUInt64
def bytesRead : Reading DataSlice := .bytes .done

def run (mem : Memory) : Reading α → Cursor → α × Cursor
  | .done a, c => (a, c)
  | .value width next, c => (next (c.valueRead mem width).1).run mem (c.valueRead mem width).2
  | .bytes next, c => (next (c.bytesRead mem).1).run mem (c.bytesRead mem).2

theorem run_bind (mem : Memory) (r : Reading α) (k : α → Reading β) (c : Cursor) :
    (r >>= k).run mem c = (k (r.run mem c).1).run mem (r.run mem c).2 := by
  induction r generalizing c with
  | done a => rfl
  | value width next ih => exact ih _ _
  | bytes next ih => exact ih _ _

theorem run_stop (mem : Memory) (r : Reading α) (c : Cursor) : (r.run mem c).2.stop = c.stop := by
  induction r generalizing c with
  | done a => rfl
  | value width next ih =>
    rw [run, ih]
    exact c.stop_valueRead mem width
  | bytes next ih =>
    rw [run, ih]
    exact c.stop_bytesRead mem

theorem le_run_pos (mem : Memory) (r : Reading α) (c : Cursor) : c.pos ≤ (r.run mem c).2.pos := by
  induction r generalizing c with
  | done a => exact le_rfl
  | value width next ih =>
    rw [run]
    exact (c.le_pos_valueRead mem width).trans (ih _ _)
  | bytes next ih =>
    rw [run]
    exact (c.le_pos_bytesRead mem).trans (ih _ _)

/-- The typed reads of the reader are of one to eight bytes each and of at most `n`
together. -/
def Within : Reading α → ℕ → Prop
  | .done _, _ => True
  | .value width next, n =>
    (0 < width ∧ width ≤ 8) ∧ width ≤ n ∧ ∀ v, (next v).Within (n - width)
  | .bytes next, n => ∀ s, (next s).Within n

theorem Within.mono {r : Reading α} {m n : ℕ} (h : r.Within m) (hle : m ≤ n) : r.Within n := by
  induction r generalizing m n with
  | done a => trivial
  | value width next ih => exact ⟨h.1, h.2.1.trans hle, fun v => ih v (h.2.2 v) (by omega)⟩
  | bytes next ih => exact fun s => ih s (h s) hle

theorem Within.bind {r : Reading α} {k : α → Reading β} {m n : ℕ} (hr : r.Within m)
    (hk : ∀ a, (k a).Within n) : (r >>= k).Within (m + n) := by
  induction r generalizing m with
  | done a => exact (hk a).mono (by omega)
  | value width next ih =>
    obtain ⟨hwidth, hm, hnext⟩ := hr
    refine ⟨hwidth, by omega, fun v => ?_⟩
    have hrest := ih v (hnext v)
    rwa [show m - width + n = m + n - width by omega] at hrest
  | bytes next ih => exact fun s => ih s (hr s)

theorem within_pure (a : α) (n : ℕ) : (pure a : Reading α).Within n := trivial

theorem within_value {width : ℕ} (hwidth : 0 < width ∧ width ≤ 8) (f : ℕ → α) :
    (Reading.value width fun v => .done (f v)).Within width :=
  ⟨hwidth, le_rfl, fun _ => trivial⟩

theorem within_uint8 : uint8Read.Within 1 := within_value (by omega) _
theorem within_uint16 : uint16Read.Within 2 := within_value (by omega) _
theorem within_uint32 : uint32Read.Within 4 := within_value (by omega) _
theorem within_uint64 : uint64Read.Within 8 := within_value (by omega) _
theorem within_bytes (n : ℕ) : bytesRead.Within n := fun _ => trivial

theorem Within.short {mem : Memory} {r : Reading α} {n : ℕ} (h : r.Within n) {c : Cursor} {x : ℕ}
    (hc : c.Short x) : (r.run mem c).2.Short (x + n) := by
  induction r generalizing c x n with
  | done a => exact hc.mono (by omega)
  | value width next ih =>
    obtain ⟨⟨-, hwidth⟩, hn, hnext⟩ := h
    rw [run]
    cases hfull : c.full width with
    | true =>
      rw [Cursor.valueRead_of_full hfull]
      exact (ih 0 (hnext 0) hc).mono (by omega)
    | false =>
      rw [Cursor.valueRead_of_not_full hfull]
      have hmoved : (c.advance width).Short (x + width) := by
        unfold Cursor.Short at *
        simp only [Cursor.pos_advance, Cursor.stop_advance]
        omega
      exact (ih _ (hnext _) hmoved).mono (by omega)
  | bytes next ih =>
    rw [run, Cursor.bytesRead_of_full (Cursor.full_eq_true.2 hc.2)]
    exact ih _ (h _) hc

/-- Where `bs` stands behind the cursor and `need` bytes are left of the range, the reader
gives a value with `R` and moves over `bs`; where less is left, it does not get that far. -/
def Decodes (mem : Memory) (r : Reading α) (R : α → Prop) (bs : List UInt8) (need : ℕ) : Prop :=
  ∀ c : Cursor, mem.read c.pos bs.length = bs →
    (c.pos + need ≤ c.stop → R (r.run mem c).1 ∧ (r.run mem c).2 = c.advance bs.length) ∧
    (c.stop < c.pos + need → (r.run mem c).2.Short (c.pos + bs.length))

variable {mem : Memory}

theorem Decodes.map {r : Reading α} {R : α → Prop} {S : β → Prop} {f : α → β} {bs : List UInt8}
    {n : ℕ} (h : Decodes mem r R bs n) (hf : ∀ a, R a → S (f a)) :
    Decodes mem (r >>= fun a => pure (f a)) S bs n := by
  intro c hread
  rw [run_bind]
  obtain ⟨hfits, hshort⟩ := h c hread
  exact ⟨fun hn => ⟨hf _ (hfits hn).1, (hfits hn).2⟩, hshort⟩

theorem Decodes.bind {r : Reading α} {k : α → Reading β} {R : α → Prop} {S : β → Prop}
    {bs cs : List UInt8} {m n w : ℕ} (hr : Decodes mem r R bs n) (hn : n ≤ bs.length)
    (hwithin : ∀ c, (k (r.run mem c).1).Within w) (hw : w ≤ cs.length)
    (hk : ∀ a, R a → Decodes mem (k a) S cs m) :
    Decodes mem (r >>= k) S (bs ++ cs) (bs.length + m) := by
  intro c hread
  obtain ⟨hbs, hcs⟩ := Memory.read_of_append hread
  obtain ⟨hfits, hshort⟩ := hr c hbs
  rw [run_bind, List.length_append]
  by_cases hroom : c.pos + n ≤ c.stop
  · obtain ⟨hvalue, hcursor⟩ := hfits hroom
    obtain ⟨hrest, hrestShort⟩ := hk _ hvalue (c.advance bs.length) hcs
    simp only [Cursor.pos_advance, Cursor.stop_advance, Cursor.advance_advance, Nat.add_assoc]
      at hrest hrestShort
    rw [hcursor]
    exact ⟨hrest, hrestShort⟩
  · -- the first part is cut off, and what comes behind it cannot catch up
    have hcut : ((k (r.run mem c).1).run mem (r.run mem c).2).2.Short
        (c.pos + bs.length + cs.length) := ((hwithin _).mono hw).short (hshort (by omega))
    refine ⟨fun hall => absurd hall (by omega), fun _ => ?_⟩
    rwa [Nat.add_assoc] at hcut

theorem decodes_value {width v : ℕ} (hwidth : 0 < width ∧ width ≤ 8) (hv : v < 256 ^ width)
    {R : α → Prop} {f : ℕ → α} (hf : R (f v)) :
    Decodes mem (.value width fun v => .done (f v)) R (bigEndian width v) width := by
  intro c hread
  rw [length_bigEndian] at hread ⊢
  constructor
  · intro hfits
    have hvalue : c.valueAt mem width = v := by
      rw [Cursor.valueAt, hread, ofBigEndian_bigEndian_of_lt hv]
    rw [run, Cursor.valueRead_of_not_full (Cursor.full_eq_false.2 hfits), hvalue]
    exact ⟨hf, rfl⟩
  · intro hstop
    rw [run, Cursor.valueRead_of_full (Cursor.full_eq_true.2 hstop)]
    exact ⟨by dsimp only [run]; omega, by dsimp only [run]; omega⟩

theorem decodes_uint32 (v : UInt32) : Decodes mem uint32Read (· = v) (bigEndian 4 v.toNat) 4 :=
  decodes_value (by omega) v.toNat_lt (by simp)

theorem decodes_uint64 (v : UInt64) : Decodes mem uint64Read (· = v) (bigEndian 8 v.toNat) 8 :=
  decodes_value (by omega) v.toNat_lt (by simp)

section Chain

variable {S : β → Prop} {cs : List UInt8} {m n : ℕ}

theorem decodes_value_bind {width v : ℕ} {f : ℕ → α} {a : α} (hv : v < 256 ^ width) (hf : f v = a)
    {k : α → Reading β}
    (hw : ((Reading.value width fun v => .done (f v)) >>= k).Within n) (hn : n ≤ width + cs.length)
    (hk : (k a).Within (n - width) → Decodes mem (k a) S cs m) :
    Decodes mem ((Reading.value width fun v => .done (f v)) >>= k) S (bigEndian width v ++ cs)
      (width + m) := by
  obtain ⟨hwidth, -, hrest⟩ := hw
  have hfirst : Decodes mem (.value width fun v => .done (f v)) (· = a) (bigEndian width v) width :=
    decodes_value hwidth hv hf
  have hall : Decodes mem ((Reading.value width fun v => .done (f v)) >>= k) S
      (bigEndian width v ++ cs) ((bigEndian width v).length + m) := by
    refine hfirst.bind (by simp) (fun c => hrest _) (by omega) ?_
    rintro _ rfl
    rw [← hf] at hk ⊢
    exact hk (hrest v)
  rwa [length_bigEndian] at hall

theorem decodes_uint8_bind {v : UInt8} {k : UInt8 → Reading β}
    (hw : (uint8Read >>= k).Within n) (hn : n ≤ 1 + cs.length)
    (hk : (k v).Within (n - 1) → Decodes mem (k v) S cs m) :
    Decodes mem (uint8Read >>= k) S (bigEndian 1 v.toNat ++ cs) (1 + m) :=
  decodes_value_bind v.toNat_lt (by simp) hw hn hk

theorem decodes_uint16_bind {v : UInt16} {k : UInt16 → Reading β}
    (hw : (uint16Read >>= k).Within n) (hn : n ≤ 2 + cs.length)
    (hk : (k v).Within (n - 2) → Decodes mem (k v) S cs m) :
    Decodes mem (uint16Read >>= k) S (bigEndian 2 v.toNat ++ cs) (2 + m) :=
  decodes_value_bind v.toNat_lt (by simp) hw hn hk

theorem decodes_uint32_bind {v : UInt32} {k : UInt32 → Reading β}
    (hw : (uint32Read >>= k).Within n) (hn : n ≤ 4 + cs.length)
    (hk : (k v).Within (n - 4) → Decodes mem (k v) S cs m) :
    Decodes mem (uint32Read >>= k) S (bigEndian 4 v.toNat ++ cs) (4 + m) :=
  decodes_value_bind v.toNat_lt (by simp) hw hn hk

theorem decodes_uint64_bind {v : UInt64} {k : UInt64 → Reading β}
    (hw : (uint64Read >>= k).Within n) (hn : n ≤ 8 + cs.length)
    (hk : (k v).Within (n - 8) → Decodes mem (k v) S cs m) :
    Decodes mem (uint64Read >>= k) S (bigEndian 8 v.toNat ++ cs) (8 + m) :=
  decodes_value_bind v.toNat_lt (by simp) hw hn hk

end Chain

theorem decodes_bytes {bs : List UInt8} (hlen : bs.length < 256 ^ 8) :
    Decodes mem bytesRead (·.Holds mem bs) (bigEndian 8 bs.length ++ bs) 8 := by
  intro c hread
  obtain ⟨hsize, hdata⟩ := Memory.read_of_append hread
  rw [length_bigEndian] at hsize hdata
  rw [List.length_append, length_bigEndian]
  constructor
  · intro hfits
    have hvalue : c.valueAt mem 8 = bs.length := by
      rw [Cursor.valueAt, hsize, ofBigEndian_bigEndian_of_lt hlen]
    rw [bytesRead, run, Cursor.bytesRead_of_not_full (Cursor.full_eq_false.2 hfits), hvalue]
    exact ⟨⟨c.pos + 8, rfl, hdata⟩, rfl⟩
  · intro hstop
    rw [bytesRead, run, Cursor.bytesRead_of_full (Cursor.full_eq_true.2 hstop)]
    exact ⟨by dsimp only [run]; omega, by dsimp only [run]; omega⟩

end Reading

end CloudHands.Shm
