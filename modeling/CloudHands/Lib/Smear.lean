import Mathlib.Data.Nat.Bits
import Mathlib.Data.Nat.Bitwise
import Mathlib.Data.Nat.Size
import Mathlib.Tactic

/-!
# Rounding up to a power of two by smearing bits

Shifting a number to the right by `1, 2, 4, …` and keeping the bits each time copies every bit to
all lower places. What is left has every bit below the highest one set.
-/

namespace CloudHands.Lib

/-- Every bit of `y` is a bit of `x` at most `n - 1` places higher. -/
def Smeared (n x y : ℕ) : Prop := ∀ i, y.testBit i = true ↔ ∃ d < n, x.testBit (i + d) = true

theorem smeared_one (x : ℕ) : Smeared 1 x x := by
  intro i
  simp

theorem Smeared.double {n x y : ℕ} (h : Smeared n x y) : Smeared (n + n) x (y ||| y >>> n) := by
  intro i
  rw [Nat.testBit_or, Nat.testBit_shiftRight, Bool.or_eq_true, h i, h (n + i)]
  constructor
  · rintro (⟨d, hd, hbit⟩ | ⟨d, hd, hbit⟩)
    · exact ⟨d, by omega, hbit⟩
    · exact ⟨n + d, by omega, by rwa [show i + (n + d) = n + i + d by omega]⟩
  · rintro ⟨d, hd, hbit⟩
    rcases lt_or_ge d n with hlow | hhigh
    · exact .inl ⟨d, hlow, hbit⟩
    · exact .inr ⟨d - n, by omega, by rwa [show n + i + (d - n) = i + d by omega]⟩

theorem Smeared.eq {w x y : ℕ} (h : Smeared w x y) (hx : x < 2 ^ w) : y = 2 ^ x.size - 1 := by
  apply Nat.eq_of_testBit_eq
  intro i
  rw [Nat.testBit_two_pow_sub_one, Bool.eq_iff_iff, h i, decide_eq_true_iff]
  constructor
  · rintro ⟨d, -, hbit⟩
    have hle : 2 ^ (i + d) ≤ x := Nat.ge_two_pow_of_testBit hbit
    exact lt_of_le_of_lt (Nat.le_add_right i d) (Nat.lt_size.2 hle)
  · intro hi
    have hpos : 0 < x.size := by omega
    have hx0 : x ≠ 0 := by
      rintro rfl
      simp at hpos
    have htop : x.testBit (x.size - 1) = true := by
      rw [Nat.testBit_eq_decide_div_mod_eq, decide_eq_true_iff]
      have hlow : 2 ^ (x.size - 1) ≤ x := Nat.lt_size.1 (by omega)
      have hhigh : x < 2 ^ (x.size - 1) * 2 := by
        rw [← pow_succ, Nat.sub_add_cancel hpos]
        exact Nat.lt_size_self x
      have hdiv : x / 2 ^ (x.size - 1) = 1 :=
        Nat.div_eq_of_lt_le (by omega) (by omega)
      rw [hdiv]
    have hsize : x.size ≤ w := Nat.size_le.2 hx
    refine ⟨x.size - 1 - i, by omega, ?_⟩
    rwa [show i + (x.size - 1 - i) = x.size - 1 by omega]

def smear64 (v : ℕ) : ℕ :=
  let v := v ||| v >>> 1
  let v := v ||| v >>> 2
  let v := v ||| v >>> 4
  let v := v ||| v >>> 8
  let v := v ||| v >>> 16
  v ||| v >>> 32

theorem smear64_eq {v : ℕ} (h : v < 2 ^ 64) : smear64 v = 2 ^ v.size - 1 :=
  Smeared.eq (((((smeared_one v).double.double).double).double.double).double) h

end CloudHands.Lib
