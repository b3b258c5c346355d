import Mathlib.Tactic

/-!
# Reading decimal numbers from text

Strict readers take the whole text as a number or refuse it; the lenient reader of the C
library skips leading blanks, takes the longest run of digits and saturates.
-/

namespace CloudHands.Lib

def asciiDigit (c : Char) : Option ℕ :=
  if 48 ≤ c.toNat ∧ c.toNat ≤ 57 then some (c.toNat - 48) else none

/-- The value of a text of digits, given the value `acc` of the digits before it. -/
def readDigits (digit : Char → Option ℕ) (acc : ℕ) : List Char → Option ℕ
  | [] => some acc
  | c :: cs =>
    match digit c with
    | none => none
    | some d => readDigits digit (acc * 10 + d) cs

def leadingDigits (acc : ℕ) : List Char → ℕ
  | [] => acc
  | c :: cs =>
    match asciiDigit c with
    | none => acc
    | some d => leadingDigits (acc * 10 + d) cs

def splitSign : List Char → Bool × List Char
  | '-' :: cs => (true, cs)
  | '+' :: cs => (false, cs)
  | cs => (false, cs)

def applySign (negative : Bool) (n : ℕ) : ℤ := if negative then -n else n

/-- A strict reader of numbers between `lo` and `hi`. -/
def parseSigned (digit : Char → Option ℕ) (lo hi : ℤ) (s : List Char) : Option ℤ :=
  if (splitSign s).2 = [] then none
  else
    match readDigits digit 0 (splitSign s).2 with
    | none => none
    | some n =>
      if lo ≤ applySign (splitSign s).1 n ∧ applySign (splitSign s).1 n ≤ hi then
        some (applySign (splitSign s).1 n)
      else none

def isSpace (c : Char) : Bool := c.toNat = 32 || (9 ≤ c.toNat && c.toNat ≤ 13)

/-- `strtol` in base 10 with a 64-bit `long`. -/
def strtol (s : List Char) : ℤ :=
  let (negative, digits) := splitSign (s.dropWhile isSpace)
  max (-2 ^ 63) (min (applySign negative (leadingDigits 0 digits)) (2 ^ 63 - 1))

/-- `strtoul` in base 10 with a 64-bit `unsigned long`: a minus negates modulo its range. -/
def strtoul (s : List Char) : ℕ :=
  let (negative, digits) := splitSign (s.dropWhile isSpace)
  let n := leadingDigits 0 digits
  if 2 ^ 64 - 1 < n then 2 ^ 64 - 1
  else if negative then (2 ^ 64 - n) % 2 ^ 64
  else n

theorem leadingDigits_of_readDigits {acc n : ℕ} {cs : List Char}
    (h : readDigits asciiDigit acc cs = some n) : leadingDigits acc cs = n := by
  induction cs generalizing acc with
  | nil => simpa [readDigits, leadingDigits] using h
  | cons c cs ih =>
    rw [readDigits] at h
    rw [leadingDigits]
    cases hd : asciiDigit c with
    | none => simp [hd] at h
    | some d =>
      rw [hd] at h
      exact ih h

theorem readDigits_congr {digit digit' : Char → Option ℕ} {cs : List Char}
    (h : ∀ c ∈ cs, digit c = digit' c) (acc : ℕ) :
    readDigits digit acc cs = readDigits digit' acc cs := by
  induction cs generalizing acc with
  | nil => rfl
  | cons c cs ih =>
    have htail : ∀ c ∈ cs, digit c = digit' c := fun c hc => h c (List.mem_cons_of_mem _ hc)
    simp only [readDigits, h c List.mem_cons_self, ih htail]

theorem asciiDigit_of_readDigits {acc n : ℕ} {cs : List Char}
    (h : readDigits asciiDigit acc cs = some n) : ∀ c ∈ cs, c.toNat < 128 := by
  induction cs generalizing acc with
  | nil => simp
  | cons c cs ih =>
    rw [readDigits] at h
    cases hd : asciiDigit c with
    | none => simp [hd] at h
    | some d =>
      rw [hd] at h
      have hc : c.toNat < 128 := by
        unfold asciiDigit at hd
        split at hd
        · omega
        · simp at hd
      exact List.forall_mem_cons.2 ⟨hc, ih h⟩

theorem parseSigned_eq_some {digit : Char → Option ℕ} {lo hi v : ℤ} {s : List Char}
    (h : parseSigned digit lo hi s = some v) :
    (splitSign s).2 ≠ [] ∧ lo ≤ v ∧ v ≤ hi ∧
      ∃ n, readDigits digit 0 (splitSign s).2 = some n ∧ applySign (splitSign s).1 n = v := by
  unfold parseSigned at h
  split at h
  · simp at h
  · rename_i hne
    cases hn : readDigits digit 0 (splitSign s).2 with
    | none => simp [hn] at h
    | some n =>
      simp only [hn, Option.ite_none_right_eq_some, Option.some.injEq] at h
      obtain ⟨⟨hlo, hhi⟩, rfl⟩ := h
      exact ⟨hne, hlo, hhi, n, rfl, rfl⟩

theorem parseSigned_of_read {digit : Char → Option ℕ} {lo hi v : ℤ} {s : List Char} {n : ℕ}
    (hne : (splitSign s).2 ≠ []) (hn : readDigits digit 0 (splitSign s).2 = some n)
    (hv : applySign (splitSign s).1 n = v) (hlo : lo ≤ v) (hhi : v ≤ hi) :
    parseSigned digit lo hi s = some v := by
  simp [parseSigned, hne, hn, hv, hlo, hhi]

theorem splitSign_of_digit {c : Char} {cs : List Char} (h : (asciiDigit c).isSome) :
    splitSign ((c :: cs).dropWhile isSpace) = (false, c :: cs) := by
  have hdigit : 48 ≤ c.toNat ∧ c.toNat ≤ 57 := by
    unfold asciiDigit at h
    split at h
    · assumption
    · simp at h
  have hspace : isSpace c = false := by
    simp only [isSpace, Bool.or_eq_false_iff, decide_eq_false_iff_not, Bool.and_eq_false_iff]
    omega
  rw [List.dropWhile_cons_of_neg (by simp [hspace])]
  unfold splitSign
  split
  · rename_i heq
    rw [(List.cons.inj heq).1] at hdigit
    exact absurd hdigit (by decide)
  · rename_i heq
    rw [(List.cons.inj heq).1] at hdigit
    exact absurd hdigit (by decide)
  · rfl

theorem strtoul_of_digit {c : Char} {cs : List Char} (h : (asciiDigit c).isSome)
    (hsmall : leadingDigits 0 (c :: cs) < 2 ^ 64) :
      strtoul (c :: cs) = leadingDigits 0 (c :: cs) := by
  have hle : ¬2 ^ 64 - 1 < leadingDigits 0 (c :: cs) := by omega
  simp only [strtoul, splitSign_of_digit h, if_neg hle]
  rfl

theorem strtoul_of_readDigits {n : ℕ} {s : List Char} (hne : s ≠ [])
    (h : readDigits asciiDigit 0 s = some n) : strtoul s = min n (2 ^ 64 - 1) := by
  obtain ⟨c, cs, rfl⟩ := List.exists_cons_of_ne_nil hne
  have hdigit : (asciiDigit c).isSome := by
    cases hd : asciiDigit c with
    | none => simp [readDigits, hd] at h
    | some d => rfl
  have hvalue := leadingDigits_of_readDigits h
  simp only [strtoul, splitSign_of_digit hdigit, hvalue]
  split
  · omega
  · rw [if_neg Bool.false_ne_true]
    omega

theorem dropWhile_isSpace_of_read {n : ℕ} {s : List Char}
    (hne : (splitSign s).2 ≠ []) (hn : readDigits asciiDigit 0 (splitSign s).2 = some n) :
    s.dropWhile isSpace = s := by
  have hhead : ∀ c cs, s = c :: cs → isSpace c = false := by
    rintro c cs rfl
    by_cases hminus : c = '-'
    · subst hminus
      rfl
    · by_cases hplus : c = '+'
      · subst hplus
        rfl
      · have hsign : splitSign (c :: cs) = (false, c :: cs) := by
          simp [splitSign, hminus, hplus]
        rw [hsign, readDigits] at hn
        cases hd : asciiDigit c with
        | none => simp [hd] at hn
        | some d =>
          have hrange : 48 ≤ c.toNat := by
            unfold asciiDigit at hd
            split at hd
            · omega
            · simp at hd
          simp only [isSpace, Bool.or_eq_false_iff, decide_eq_false_iff_not, Bool.and_eq_false_iff]
          omega
  cases s with
  | nil => rfl
  | cons c cs => rw [List.dropWhile_cons_of_neg (by simp [hhead c cs rfl])]

theorem strtol_of_parseSigned {lo hi v : ℤ} {s : List Char} (hlo : -2 ^ 63 ≤ lo)
    (hhi : hi ≤ 2 ^ 63 - 1) (h : parseSigned asciiDigit lo hi s = some v) : strtol s = v := by
  obtain ⟨hne, hle, hge, n, hn, hv⟩ := parseSigned_eq_some h
  rw [strtol, dropWhile_isSpace_of_read hne hn]
  simp only [leadingDigits_of_readDigits hn, hv]
  rw [min_eq_left (hge.trans hhi), max_eq_right (hlo.trans hle)]

theorem parseSigned_extend {digit : Char → Option ℕ} {lo hi lo' hi' v : ℤ} {s : List Char}
    (hdigit : ∀ c : Char, c.toNat < 128 → digit c = asciiDigit c) (hlo : lo' ≤ lo) (hhi : hi ≤ hi')
    (h : parseSigned asciiDigit lo hi s = some v) : parseSigned digit lo' hi' s = some v := by
  obtain ⟨hne, hle, hge, n, hn, hv⟩ := parseSigned_eq_some h
  have hn' : readDigits digit 0 (splitSign s).2 = some n := by
    rw [readDigits_congr fun c hc => hdigit c (asciiDigit_of_readDigits hn c hc), hn]
  exact parseSigned_of_read hne hn' hv (hlo.trans hle) (hge.trans hhi)

theorem splitSign_subset (s : List Char) : (splitSign s).2 ⊆ s := by
  unfold splitSign
  split <;> simp

theorem parseSigned_ascii {digit : Char → Option ℕ} (lo hi : ℤ) {s : List Char}
    (hdigit : ∀ c : Char, c.toNat < 128 → digit c = asciiDigit c) (hs : ∀ c ∈ s, c.toNat < 128) :
    parseSigned digit lo hi s = parseSigned asciiDigit lo hi s := by
  have hread : readDigits digit 0 (splitSign s).2 = readDigits asciiDigit 0 (splitSign s).2 :=
    readDigits_congr (fun c hc => hdigit c (hs c (splitSign_subset s hc))) 0
  simp only [parseSigned, hread]

theorem readDigits_of_isDigit {cs : List Char} (h : ∀ c ∈ cs, c.isDigit) (acc : ℕ) :
    readDigits asciiDigit acc cs = some (Nat.ofDigitChars 10 cs acc) := by
  induction cs generalizing acc with
  | nil => rfl
  | cons c cs ih =>
    have hc : asciiDigit c = some (c.toNat - '0'.toNat) := by
      have hdigit : 48 ≤ c.toNat ∧ c.toNat ≤ 57 := by
        simpa [Char.isDigit, UInt32.le_iff_toNat_le] using h c List.mem_cons_self
      exact if_pos hdigit
    rw [readDigits, hc]
    dsimp only
    rw [ih (fun d hd => h d (List.mem_cons_of_mem _ hd)), Nat.ofDigitChars_cons, Nat.mul_comm]

theorem isDigit_toDigits (n : ℕ) : ∀ c ∈ Nat.toDigits 10 n, c.isDigit := fun _ hc =>
  Nat.isDigit_of_mem_toDigits (by omega) (by omega) hc

theorem readDigits_toDigits (n : ℕ) : readDigits asciiDigit 0 (Nat.toDigits 10 n) = some n := by
  rw [readDigits_of_isDigit (isDigit_toDigits n), Nat.ofDigitChars_ten_toDigits]

theorem splitSign_of_isDigit {cs : List Char} (h : ∀ c ∈ cs, c.isDigit) :
    splitSign cs = (false, cs) := by
  unfold splitSign
  split
  · exact absurd (h '-' List.mem_cons_self) (by decide)
  · exact absurd (h '+' List.mem_cons_self) (by decide)
  · rfl

theorem parseSigned_toDigits {digit : Char → Option ℕ} {lo hi : ℤ}
    (hdigit : ∀ c : Char, c.toNat < 128 → digit c = asciiDigit c) {n : ℕ} (hlo : lo ≤ n)
    (hhi : n ≤ hi) : parseSigned digit lo hi (Nat.toDigits 10 n) = some (n : ℤ) := by
  have hsplit := splitSign_of_isDigit (isDigit_toDigits n)
  have hread : parseSigned asciiDigit lo hi (Nat.toDigits 10 n) = some (n : ℤ) := by
    refine parseSigned_of_read (n := n) ?_ ?_ ?_ hlo hhi
    · rw [hsplit]
      exact Nat.toDigits_ne_nil
    · rw [hsplit]
      exact readDigits_toDigits n
    · rw [hsplit]
      rfl
  exact parseSigned_extend hdigit le_rfl le_rfl hread

end CloudHands.Lib
