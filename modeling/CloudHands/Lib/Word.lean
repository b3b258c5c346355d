import Mathlib.Tactic

/-!
# Unsigned machine words as wrapped natural numbers

A `w`-bit unsigned value is a natural number below `2 ^ w`. The operations
wrap explicitly, so a proof that no wrap occurs is a proof about the operands.
-/

namespace CloudHands.Word

/-- Unsigned addition of `w`-bit words. -/
def add (w a b : ℕ) : ℕ := (a + b) % 2 ^ w

/-- Unsigned subtraction of `w`-bit words. -/
def sub (w a b : ℕ) : ℕ := (a + (2 ^ w - b % 2 ^ w)) % 2 ^ w

theorem add_of_lt {w a b : ℕ} (h : a + b < 2 ^ w) : add w a b = a + b := Nat.mod_eq_of_lt h

theorem sub_of_le {w a b : ℕ} (ha : a < 2 ^ w) (h : b ≤ a) : sub w a b = a - b := by
  unfold sub
  rw [Nat.mod_eq_of_lt (lt_of_le_of_lt h ha)]
  have heq : a + (2 ^ w - b) = (a - b) + 2 ^ w := by omega
  rw [heq, Nat.add_mod_right, Nat.mod_eq_of_lt (by omega)]

theorem sub_add_cancel {w b d : ℕ} (hd : d < 2 ^ w) : sub w ((b + d) % 2 ^ w) b = d := by
  unfold sub
  have hb : b % 2 ^ w < 2 ^ w := Nat.mod_lt _ (by positivity)
  have hsum : (b + d) % 2 ^ w + (2 ^ w - b % 2 ^ w) ≡ d [MOD 2 ^ w] := by
    have h₁ : (b + d) % 2 ^ w ≡ b % 2 ^ w + d [MOD 2 ^ w] :=
      (Nat.mod_modEq _ _).trans (Nat.ModEq.add_right d (Nat.mod_modEq b _).symm)
    have h₂ := h₁.add_right (2 ^ w - b % 2 ^ w)
    have h₃ : b % 2 ^ w + d + (2 ^ w - b % 2 ^ w) = d + 2 ^ w := by omega
    rw [h₃] at h₂
    exact h₂.trans (by simp [Nat.ModEq])
  have h := hsum
  unfold Nat.ModEq at h
  rw [h, Nat.mod_eq_of_lt hd]

/-- The signed value of a `w`-bit word. -/
def signed (w v : ℕ) : ℤ := if v < 2 ^ (w - 1) then v else (v : ℤ) - 2 ^ w

theorem signed_of_lt {w v : ℕ} (h : v < 2 ^ (w - 1)) : signed w v = v := if_pos h

theorem signed_eq_iff {w v : ℕ} : signed w v = v ↔ v < 2 ^ (w - 1) := by
  refine ⟨fun h => ?_, signed_of_lt⟩
  by_contra hge
  rw [signed, if_neg hge] at h
  have hpos : (0 : ℤ) < 2 ^ w := by positivity
  omega

theorem signed_lt {w v : ℕ} (hv : v < 2 ^ w) : signed w v < 2 ^ (w - 1) := by
  rw [signed]
  split
  · exact_mod_cast ‹v < 2 ^ (w - 1)›
  · have hneg : (v : ℤ) < 2 ^ w := by exact_mod_cast hv
    have hpos : (0 : ℤ) < 2 ^ (w - 1) := by positivity
    omega

end CloudHands.Word
