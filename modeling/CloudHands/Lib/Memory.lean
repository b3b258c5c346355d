import CloudHands.Lib.BigEndian
import Mathlib.Tactic

/-!
# A byte memory with little-endian numbers

Reads after writes: a read of the written range gives the written bytes, and a read
that stays clear of it gives what was there before.
-/

namespace CloudHands.Lib

abbrev Memory : Type := ℕ → UInt8

namespace Memory

def read (mem : Memory) (a n : ℕ) : List UInt8 := (List.range n).map fun i => mem (a + i)

def write (mem : Memory) (a : ℕ) (bs : List UInt8) : Memory :=
  fun x => if a ≤ x ∧ x < a + bs.length then bs.getD (x - a) 0 else mem x

@[simp] theorem length_read (mem : Memory) (a n : ℕ) : (mem.read a n).length = n := by
  simp [read]

theorem read_congr {mem mem' : Memory} {a n : ℕ} (h : ∀ i < n, mem (a + i) = mem' (a + i)) :
    mem.read a n = mem'.read a n := by
  apply List.map_congr_left
  intro i hi
  exact h i (List.mem_range.1 hi)

theorem read_write_of_disjoint (mem : Memory) {a b n : ℕ} {bs : List UInt8}
    (h : a + n ≤ b ∨ b + bs.length ≤ a) : (mem.write b bs).read a n = mem.read a n := by
  apply read_congr
  intro i hi
  apply if_neg
  omega

theorem read_write (mem : Memory) (a : ℕ) (bs : List UInt8) :
    (mem.write a bs).read a bs.length = bs := by
  apply List.ext_getElem (length_read _ _ _)
  intro i hi hbs
  simp [read, write, hbs]

/-- The memories agree outside the `n` bytes from `a` on. -/
def AgreeOff (a n : ℕ) (mem mem' : Memory) : Prop := ∀ x, x < a ∨ a + n ≤ x → mem x = mem' x

theorem agreeOff_write (mem : Memory) (a : ℕ) (bs : List UInt8) :
    AgreeOff a bs.length (mem.write a bs) mem := by
  intro x hx
  apply if_neg
  omega

theorem AgreeOff.symm {a n : ℕ} {mem mem' : Memory} (h : AgreeOff a n mem mem') :
    AgreeOff a n mem' mem := by
  intro x hx
  exact (h x hx).symm

theorem AgreeOff.read {a n : ℕ} {mem mem' : Memory} (h : AgreeOff a n mem mem') {b k : ℕ}
    (hb : b + k ≤ a ∨ a + n ≤ b) : mem.read b k = mem'.read b k := by
  apply read_congr
  intro i hi
  apply h
  omega

theorem AgreeOff.write {a n : ℕ} {mem mem' : Memory} (h : AgreeOff a n mem mem') (b : ℕ)
    (bs : List UInt8) : AgreeOff a n (mem.write b bs) (mem'.write b bs) := by
  intro x hx
  simp only [Memory.write, h x hx]

theorem AgreeOff.write_self {a : ℕ} {mem mem' : Memory} {bs : List UInt8}
    (h : AgreeOff a bs.length mem mem') : mem.write a bs = mem'.write a bs := by
  funext x
  unfold Memory.write
  split_ifs with hx
  · rfl
  · apply h
    omega

theorem take_read (mem : Memory) (a : ℕ) {m n : ℕ} (h : m ≤ n) :
    (mem.read a n).take m = mem.read a m := by
  simp [read, ← List.map_take, List.take_range, min_eq_left h]

theorem read_of_read {mem : Memory} {a n i k : ℕ} {bs : List UInt8} (h : mem.read a n = bs)
    (hik : i + k ≤ n) : mem.read (a + i) k = (bs.drop i).take k := by
  subst h
  apply List.ext_getElem
  · simp only [length_read, List.length_take, List.length_drop]
    omega
  · intro j _ _
    simp [read, Nat.add_assoc]

theorem read_of_append {mem : Memory} {a : ℕ} {bs cs : List UInt8}
    (h : mem.read a (bs ++ cs).length = bs ++ cs) :
    mem.read a bs.length = bs ∧ mem.read (a + bs.length) cs.length = cs := by
  have hsplit : mem.read a (bs ++ cs).length =
      mem.read a bs.length ++ mem.read (a + bs.length) cs.length := by
    simp only [read, List.length_append, List.range_add, List.map_append, List.map_map]
    congr 1
    apply List.map_congr_left
    intro i _
    simp [Nat.add_assoc]
  rw [hsplit] at h
  exact List.append_inj h (length_read _ _ _)

end Memory

def littleEndian (n v : ℕ) : List UInt8 := (bigEndian n v).reverse

def ofLittleEndian (bs : List UInt8) : ℕ := ofBigEndian bs.reverse

@[simp] theorem length_littleEndian (n v : ℕ) : (littleEndian n v).length = n := by
  simp [littleEndian]

theorem ofLittleEndian_littleEndian {n v : ℕ} (h : v < 256 ^ n) :
    ofLittleEndian (littleEndian n v) = v := by
  rw [ofLittleEndian, littleEndian, List.reverse_reverse, ofBigEndian_bigEndian_of_lt h]

theorem ofLittleEndian_lt (bs : List UInt8) : ofLittleEndian bs < 256 ^ bs.length := by
  have h := ofBigEndian_lt bs.reverse
  rwa [List.length_reverse] at h

theorem ofLittleEndian_append (bs cs : List UInt8) :
    ofLittleEndian (bs ++ cs) = ofLittleEndian bs + 256 ^ bs.length * ofLittleEndian cs := by
  rw [ofLittleEndian, List.reverse_append, ofBigEndian_append, List.length_reverse,
    ofLittleEndian, ofLittleEndian]
  ring

theorem ofLittleEndian_drop_take (bs : List UInt8) {a n : ℕ} (h : a + n ≤ bs.length) :
    ofLittleEndian ((bs.drop a).take n) = ofLittleEndian bs / 256 ^ a % 256 ^ n := by
  have hsplit : bs = bs.take a ++ ((bs.drop a).take n ++ (bs.drop a).drop n) := by
    rw [List.take_append_drop, List.take_append_drop]
  have ha : (bs.take a).length = a := by
    rw [List.length_take]
    omega
  have hn : ((bs.drop a).take n).length = n := by
    rw [List.length_take, List.length_drop]
    omega
  have hlow := ofLittleEndian_lt (bs.take a)
  have hmid := ofLittleEndian_lt ((bs.drop a).take n)
  rw [ha] at hlow
  rw [hn] at hmid
  conv_rhs => rw [hsplit, ofLittleEndian_append, ofLittleEndian_append, ha, hn]
  rw [Nat.add_mul_div_left _ _ (by positivity), Nat.div_eq_of_lt hlow, Nat.zero_add,
    Nat.add_mul_mod_self_left, Nat.mod_eq_of_lt hmid]

end CloudHands.Lib
