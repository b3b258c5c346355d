import Mathlib.Tactic

/-!
# Base64

The alphabet with `+` and `/`, groups of four digits for three bytes, and a decoder that takes a
last group with its padding or without any.
-/

namespace CloudHands.Lib.Base64

def pad : UInt8 := 61

def digit (n : ℕ) : UInt8 :=
  if n < 26 then UInt8.ofNat (n + 65)
  else if n < 52 then UInt8.ofNat (n + 71)
  else if n < 62 then UInt8.ofNat (n - 4)
  else if n = 62 then 43
  else 47

def value (c : UInt8) : Option ℕ :=
  if 65 ≤ c ∧ c ≤ 90 then some (c.toNat - 65)
  else if 97 ≤ c ∧ c ≤ 122 then some (c.toNat - 71)
  else if 48 ≤ c ∧ c ≤ 57 then some (c.toNat + 4)
  else if c = 43 then some 62
  else if c = 47 then some 63
  else none

def encode : List UInt8 → List UInt8
  | [] => []
  | [a] => [digit (a.toNat / 4), digit (a.toNat % 4 * 16), pad, pad]
  | [a, b] =>
    [digit (a.toNat / 4), digit (a.toNat % 4 * 16 + b.toNat / 16), digit (b.toNat % 16 * 4), pad]
  | a :: b :: c :: rest =>
    digit (a.toNat / 4) :: digit (a.toNat % 4 * 16 + b.toNat / 16) ::
      digit (b.toNat % 16 * 4 + c.toNat / 64) :: digit (c.toNat % 64) :: encode rest

def two (a b : UInt8) : Option (List UInt8) := do
  let x ← value a
  let y ← value b
  some [UInt8.ofNat (x * 4 + y / 16)]

def three (a b c : UInt8) : Option (List UInt8) := do
  let x ← value a
  let y ← value b
  let z ← value c
  some [UInt8.ofNat (x * 4 + y / 16), UInt8.ofNat (y % 16 * 16 + z / 4)]

def four (a b c d : UInt8) : Option (List UInt8) := do
  let x ← value a
  let y ← value b
  let z ← value c
  let w ← value d
  some [UInt8.ofNat (x * 4 + y / 16), UInt8.ofNat (y % 16 * 16 + z / 4),
    UInt8.ofNat (z % 4 * 64 + w)]

def decode : List UInt8 → Option (List UInt8)
  | [] => some []
  | [_] => none
  | [a, b] => two a b
  | [a, b, c] => three a b c
  | a :: b :: c :: d :: rest =>
    if c = pad then (if d = pad ∧ rest = [] then two a b else none)
    else if d = pad then (if rest = [] then three a b c else none)
    else do
      let bytes ← four a b c d
      let more ← decode rest
      some (bytes ++ more)

theorem value_digit_all : ∀ n ∈ List.range 64, value (digit n) = some n ∧ digit n ≠ pad := by decide

theorem value_digit {n : ℕ} (hn : n < 64) : value (digit n) = some n :=
  (value_digit_all n (List.mem_range.2 hn)).1

theorem digit_ne_pad {n : ℕ} (hn : n < 64) : digit n ≠ pad :=
  (value_digit_all n (List.mem_range.2 hn)).2

theorem ofNat_eq {b : UInt8} {n : ℕ} (hn : n = b.toNat) : UInt8.ofNat n = b := by
  rw [hn, UInt8.ofNat_toNat]

theorem decode_encode (bytes : List UInt8) : decode (encode bytes) = some bytes := by
  induction bytes using encode.induct with
  | case1 => rfl
  | case2 a =>
    have ha := a.toNat_lt
    have hx := value_digit (n := a.toNat / 4) (by omega)
    have hy := value_digit (n := a.toNat % 4 * 16) (by omega)
    have hbyte : UInt8.ofNat (a.toNat / 4 * 4 + a.toNat % 4 * 16 / 16) = a := ofNat_eq (by omega)
    rw [encode, decode, if_pos rfl, if_pos ⟨rfl, rfl⟩, two, hx, hy]
    simp only [Option.bind_eq_bind, Option.bind_some, hbyte]
  | case3 a b =>
    have ha := a.toNat_lt
    have hb := b.toNat_lt
    have hx := value_digit (n := a.toNat / 4) (by omega)
    have hy := value_digit (n := a.toNat % 4 * 16 + b.toNat / 16) (by omega)
    have hz := value_digit (n := b.toNat % 16 * 4) (by omega)
    have hpad := digit_ne_pad (n := b.toNat % 16 * 4) (by omega)
    have hfirst : UInt8.ofNat (a.toNat / 4 * 4 + (a.toNat % 4 * 16 + b.toNat / 16) / 16) = a :=
      ofNat_eq (by omega)
    have hsecond :
        UInt8.ofNat ((a.toNat % 4 * 16 + b.toNat / 16) % 16 * 16 + b.toNat % 16 * 4 / 4) = b :=
      ofNat_eq (by omega)
    rw [encode, decode, if_neg hpad, if_pos rfl, if_pos rfl, three, hx, hy, hz]
    simp only [Option.bind_eq_bind, Option.bind_some, hfirst, hsecond]
  | case4 a b c rest ih =>
    have ha := a.toNat_lt
    have hb := b.toNat_lt
    have hc := c.toNat_lt
    have hx := value_digit (n := a.toNat / 4) (by omega)
    have hy := value_digit (n := a.toNat % 4 * 16 + b.toNat / 16) (by omega)
    have hz := value_digit (n := b.toNat % 16 * 4 + c.toNat / 64) (by omega)
    have hw := value_digit (n := c.toNat % 64) (by omega)
    have hthird := digit_ne_pad (n := b.toNat % 16 * 4 + c.toNat / 64) (by omega)
    have hfourth := digit_ne_pad (n := c.toNat % 64) (by omega)
    have hone : UInt8.ofNat (a.toNat / 4 * 4 + (a.toNat % 4 * 16 + b.toNat / 16) / 16) = a :=
      ofNat_eq (by omega)
    have htwo : UInt8.ofNat ((a.toNat % 4 * 16 + b.toNat / 16) % 16 * 16 +
        (b.toNat % 16 * 4 + c.toNat / 64) / 4) = b := ofNat_eq (by omega)
    have hlast : UInt8.ofNat ((b.toNat % 16 * 4 + c.toNat / 64) % 4 * 64 + c.toNat % 64) = c :=
      ofNat_eq (by omega)
    rw [encode, decode, if_neg hthird, if_neg hfourth, four, hx, hy, hz, hw, ih]
    simp only [Option.bind_eq_bind, Option.bind_some, hone, htwo, hlast, List.cons_append,
      List.nil_append]

theorem encode_ne_nil {bytes : List UInt8} (hne : bytes ≠ []) : encode bytes ≠ [] := by
  intro hnil
  have hdecode := decode_encode bytes
  rw [hnil] at hdecode
  exact hne (Option.some.inj hdecode).symm

theorem digit_graphic_all : ∀ n ∈ List.range 64, 32 < digit n ∧ digit n < 128 := by decide

theorem graphic_of_mem_encode {bytes : List UInt8} {c : UInt8} (hc : c ∈ encode bytes) :
    32 < c ∧ c < 128 := by
  have hpad : 32 < pad ∧ pad < 128 := by decide
  have hdigit {n : ℕ} (hn : n < 64) : 32 < digit n ∧ digit n < 128 :=
    digit_graphic_all n (List.mem_range.2 hn)
  induction bytes using encode.induct with
  | case1 => cases hc
  | case2 a =>
    have ha := a.toNat_lt
    simp only [encode, List.mem_cons, List.not_mem_nil, or_false] at hc
    rcases hc with rfl | rfl | rfl | rfl
    · exact hdigit (by omega)
    · exact hdigit (by omega)
    · exact hpad
    · exact hpad
  | case3 a b =>
    have ha := a.toNat_lt
    have hb := b.toNat_lt
    simp only [encode, List.mem_cons, List.not_mem_nil, or_false] at hc
    rcases hc with rfl | rfl | rfl | rfl
    · exact hdigit (by omega)
    · exact hdigit (by omega)
    · exact hdigit (by omega)
    · exact hpad
  | case4 a b c rest ih =>
    have ha := a.toNat_lt
    have hb := b.toNat_lt
    have hc' := c.toNat_lt
    simp only [encode, List.mem_cons] at hc
    rcases hc with rfl | rfl | rfl | rfl | hc
    · exact hdigit (by omega)
    · exact hdigit (by omega)
    · exact hdigit (by omega)
    · exact hdigit (by omega)
    · exact ih hc

end CloudHands.Lib.Base64
