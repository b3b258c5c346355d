import CloudHands.Lib.SwapSort

/-!
# The hash of a flow

`lib/common/ch_jhash.h`, the part that hashes words. The sorted variants hash the words
in ascending order, so the order they come in does not matter.
-/

namespace CloudHands.Pkt

open Lib

def rol32 (word shift : UInt32) : UInt32 := (word <<< shift) ||| (word >>> (32 - shift))

def jhashInitval : UInt32 := 0xdeadbeef

def jhashMix (a b c : UInt32) : UInt32 × UInt32 × UInt32 :=
  let a := a - c; let a := a ^^^ rol32 c 4; let c := c + b
  let b := b - a; let b := b ^^^ rol32 a 6; let a := a + c
  let c := c - b; let c := c ^^^ rol32 b 8; let b := b + a
  let a := a - c; let a := a ^^^ rol32 c 16; let c := c + b
  let b := b - a; let b := b ^^^ rol32 a 19; let a := a + c
  let c := c - b; let c := c ^^^ rol32 b 4; let b := b + a
  (a, b, c)

/-- The last mixing, of which only `c` is used. -/
def jhashFinal (a b c : UInt32) : UInt32 :=
  let c := c ^^^ b; let c := c - rol32 b 14
  let a := a ^^^ c; let a := a - rol32 c 11
  let b := b ^^^ a; let b := b - rol32 a 25
  let c := c ^^^ b; let c := c - rol32 b 16
  let a := a ^^^ c; let a := a - rol32 c 4
  let b := b ^^^ a; let b := b - rol32 a 14
  let c := c ^^^ b; c - rol32 b 24

def jhash2Loop (a b c : UInt32) : List UInt32 → UInt32
  | k₀ :: k₁ :: k₂ :: k₃ :: k =>
    let (a, b, c) := jhashMix (a + k₀) (b + k₁) (c + k₂)
    jhash2Loop a b c (k₃ :: k)
  | [k₀, k₁, k₂] => jhashFinal (a + k₀) (b + k₁) (c + k₂)
  | [k₀, k₁] => jhashFinal (a + k₀) (b + k₁) c
  | [k₀] => jhashFinal (a + k₀) b c
  | [] => c

def jhash2 (k : List UInt32) (initval : UInt32) : UInt32 :=
  let start := jhashInitval + (UInt32.ofNat k.length <<< 2) + initval
  jhash2Loop start start start k

def jhashNwords (a b c initval : UInt32) : UInt32 :=
  jhashFinal (a + initval) (b + initval) (c + initval)

def jhash4wordsSort (a b c d : ℕ) (initval : UInt32) : UInt32 :=
  jhash2 ((sort4 a b c d).map UInt32.ofNat) initval

def jhash3wordsSort (a b c : ℕ) (initval : UInt32) : UInt32 :=
  match sort3 a b c with
  | [a, b, c] =>
    jhashNwords (UInt32.ofNat a) (UInt32.ofNat b) (UInt32.ofNat c)
      (initval + jhashInitval + ((3 : UInt32) <<< 2))
  | _ => 0 -- three values are sorted to three

theorem jhash4wordsSort_swap (a b c d : ℕ) (initval : UInt32) :
    jhash4wordsSort b a d c initval = jhash4wordsSort a b c d initval := by
  have hperm : [b, a, d, c].Perm [a, b, c, d] :=
    (List.Perm.swap a b [d, c]).trans (((List.Perm.swap c d []).cons b).cons a)
  rw [jhash4wordsSort, jhash4wordsSort, sort4_congr hperm]

theorem jhash3wordsSort_swap (a b c : ℕ) (initval : UInt32) :
    jhash3wordsSort a c b initval = jhash3wordsSort a b c initval := by
  have hperm : [a, c, b].Perm [a, b, c] := (List.Perm.swap b c []).cons a
  rw [jhash3wordsSort, jhash3wordsSort, sort3_congr hperm]

end CloudHands.Pkt
