import Mathlib.Data.List.Basic
import Mathlib.Data.Nat.ModEq
import Mathlib.Tactic.Ring

/-!
# Big-endian numbers and writes into a byte buffer

The bytes of a number, most significant first, the number read back from them, and
the buffer that results from overwriting a range of another one.
-/

namespace CloudHands.Lib

def bigEndian : ℕ → ℕ → List UInt8
  | 0, _ => []
  | n + 1, v => UInt8.ofNat (v / 256 ^ n) :: bigEndian n v

def ofBigEndian : List UInt8 → ℕ
  | [] => 0
  | b :: bs => b.toNat * 256 ^ bs.length + ofBigEndian bs

@[simp] theorem length_bigEndian (n v : ℕ) : (bigEndian n v).length = n := by
  induction n with
  | zero => rfl
  | succ n ih => simp [bigEndian, ih]

theorem ofBigEndian_bigEndian (n v : ℕ) : ofBigEndian (bigEndian n v) = v % 256 ^ n := by
  induction n with
  | zero => simp [bigEndian, ofBigEndian, Nat.mod_one]
  | succ n ih =>
    have hbyte : (UInt8.ofNat (v / 256 ^ n)).toNat = v / 256 ^ n % 256 := by simp
    rw [bigEndian, ofBigEndian, ih, length_bigEndian, hbyte, Nat.mod_pow_succ]
    ring

theorem ofBigEndian_bigEndian_of_lt {n v : ℕ} (h : v < 256 ^ n) :
    ofBigEndian (bigEndian n v) = v := by
  rw [ofBigEndian_bigEndian, Nat.mod_eq_of_lt h]

theorem ofBigEndian_lt (bs : List UInt8) : ofBigEndian bs < 256 ^ bs.length := by
  induction bs with
  | nil => simp [ofBigEndian]
  | cons b bs ih =>
    have hb : b.toNat + 1 ≤ 256 := b.toNat_lt
    calc ofBigEndian (b :: bs) = b.toNat * 256 ^ bs.length + ofBigEndian bs := rfl
      _ < (b.toNat + 1) * 256 ^ bs.length := by rw [Nat.succ_mul]; omega
      _ ≤ 256 * 256 ^ bs.length := Nat.mul_le_mul_right _ hb
      _ = 256 ^ (b :: bs).length := by rw [List.length_cons, pow_succ, Nat.mul_comm]

theorem ofBigEndian_append (bs cs : List UInt8) :
    ofBigEndian (bs ++ cs) = ofBigEndian bs * 256 ^ cs.length + ofBigEndian cs := by
  induction bs with
  | nil => simp [ofBigEndian]
  | cons b bs ih =>
    rw [List.cons_append, ofBigEndian, ofBigEndian, ih, List.length_append, pow_add]
    ring

section Overwrite

variable {α : Type*}

/-- The buffer `buf` with `bs` written over it from position `pos` on. -/
def overwrite (buf : List α) (pos : ℕ) (bs : List α) : List α :=
  buf.take pos ++ bs ++ buf.drop (pos + bs.length)

theorem length_overwrite {buf bs : List α} {pos : ℕ} (h : pos + bs.length ≤ buf.length) :
    (overwrite buf pos bs).length = buf.length := by
  simp only [overwrite, List.length_append, List.length_take, List.length_drop]
  omega

theorem drop_overwrite {buf bs : List α} {pos : ℕ} (hpos : pos ≤ buf.length) :
    (overwrite buf pos bs).drop pos = bs ++ buf.drop (pos + bs.length) := by
  have hlen : (buf.take pos).length = pos := by simp [hpos]
  rw [overwrite, List.append_assoc]
  exact List.drop_left' hlen

theorem drop_overwrite_of_le {buf bs : List α} {pos n : ℕ} (hpos : pos ≤ buf.length)
    (hn : pos + bs.length ≤ n) : (overwrite buf pos bs).drop n = buf.drop n := by
  obtain ⟨m, rfl⟩ := Nat.exists_eq_add_of_le hn
  have hsplit : (overwrite buf pos bs).drop (pos + bs.length + m) =
      (((overwrite buf pos bs).drop pos).drop bs.length).drop m := by
    simp [List.drop_drop, Nat.add_assoc]
  rw [hsplit, drop_overwrite hpos, List.drop_left, List.drop_drop]

theorem overwrite_overwrite {buf bs cs : List α} {pos : ℕ}
    (h : pos + bs.length ≤ buf.length) :
    overwrite (overwrite buf pos bs) (pos + bs.length) cs = overwrite buf pos (bs ++ cs) := by
  have htake : (overwrite buf pos bs).take (pos + bs.length) = buf.take pos ++ bs := by
    have hlen : (buf.take pos ++ bs).length = pos + bs.length := by simp; omega
    exact List.take_left' hlen
  have hdrop : (overwrite buf pos bs).drop (pos + bs.length + cs.length) =
      buf.drop (pos + bs.length + cs.length) :=
    drop_overwrite_of_le (by omega) (by omega)
  rw [overwrite, htake, hdrop, overwrite]
  simp [Nat.add_assoc]

theorem prefix_overwrite {buf bs cs : List α} {start pos : ℕ} (h : cs <+: buf.drop start)
    (hpos : pos = start + cs.length) (hfits : pos + bs.length ≤ buf.length) :
    cs ++ bs <+: (overwrite buf pos bs).drop start := by
  have hcs : (buf.drop start).take cs.length = cs := (List.prefix_iff_eq_take.1 h).symm
  have hsplit : buf.take pos = buf.take start ++ cs := by rw [hpos, List.take_add, hcs]
  have hstart : (buf.take start).length = start := by simp; omega
  refine ⟨buf.drop (pos + bs.length), ?_⟩
  rw [overwrite, hsplit]
  simp only [List.append_assoc]
  exact (List.drop_left' hstart).symm

theorem prefix_drop_of_append {bs cs buf : List α} {pos : ℕ} (h : bs ++ cs <+: buf.drop pos) :
    bs <+: buf.drop pos ∧ cs <+: buf.drop (pos + bs.length) := by
  refine ⟨(List.prefix_append bs cs).trans h, ?_⟩
  obtain ⟨rest, hrest⟩ := h
  have hdrop : buf.drop (pos + bs.length) = cs ++ rest := by
    rw [← List.drop_drop, ← hrest, List.append_assoc, List.drop_left]
  exact ⟨rest, hdrop.symm⟩

end Overwrite

end CloudHands.Lib
