import CloudHands.Rule.Agreement
import CloudHands.Rule.Engine
import Mathlib.Data.List.TakeWhile

/-!
# What a rule means

The formula that a rule denotes, and the slice of a packet or a stream that
`ch_rule_data_get` makes the text of a target. The data need not be a text in any encoding,
so here a character stands for one byte, in the values of a rule as well. A text ends at its
first null byte, also where the slice goes on.
-/

namespace CloudHands.RuleEngine

open CloudHands.RuleMatch
open Lib

def Target.text (tcontext : Target) (ritem : RuleItem) : List Char :=
  (tcontext.target ritem.target ritem.isHex).chars

/-- The items of a rule, combined by the rule's connective, where the rule applies. -/
def RuleHolds (tcontext : Target) (rule : Rule) : Prop :=
  (rule.isEnable = true ∧ rule.proto ≠ protoUnk ∧ tcontext.isMyProto rule.proto = true) ∧
    if rule.isAnd then ∀ ritem ∈ rule.items, ItemHolds (tcontext.text ritem) ritem
    else ∃ ritem ∈ rule.items, ItemHolds (tcontext.text ritem) ritem

theorem doMatchRule_iff (tcontext : Target) (rule : Rule) :
    doMatchRule tcontext rule = true ↔ RuleHolds tcontext rule := by
  have hvalid : RuleMatch.C.isValidRule
      ⟨tcontext.target, rule.proto != protoUnk && tcontext.isMyProto rule.proto⟩ rule.toRule
        = true ↔
      rule.isEnable = true ∧ rule.proto ≠ protoUnk ∧ tcontext.isMyProto rule.proto = true := by
    simp [C.isValidRule]
  rw [doMatchRule, C.doMatchRule, RuleHolds, ← hvalid]
  cases C.isValidRule
      ⟨tcontext.target, rule.proto != protoUnk && tcontext.isMyProto rule.proto⟩ rule.toRule with
  | false => simp
  | true =>
    simp only [Bool.not_true, Bool.false_eq_true, if_false, true_and, matchLoop_iff,
      doMatchItem_iff]
    rfl

theorem ruleMatch_iff (tcontext : Target) (rpool : RulePool) :
    ruleMatch tcontext rpool = true ↔ ∃ rule ∈ rpool.rules, RuleHolds tcontext rule := by
  rw [ruleMatch, matchRules_eq, List.any_eq_true]
  simp only [doMatchRule_iff]

def b2hex : List UInt8 := "0123456789abcdef".toList.map Char.toUInt8

/-- `ch_rule_to_hex_with_buff`: the bytes it writes, from the start of the buffer. -/
def ruleToHexWithBuff (data : List UInt8) : List UInt8 :=
  (data.flatMap fun byte =>
    [b2hex.getD (byte.toNat >>> 4) 0, b2hex.getD (byte.toNat &&& 15) 0]) ++ [0]

/-- `ch_rule_data_get`: the bytes it writes, from the start of its buffer of `bsize` bytes. A
null pointer to the data is an empty list. -/
def ruleDataGet (bsize : UInt64) (data : List UInt8) (offset len : ℕ) (isHex : Bool) :
    Option (List UInt8) :=
  if bsize ≤ 0 ∨ data.length = 0 ∨ data.length ≤ offset then none
  else
    let pdata := data.drop offset
    let dlen := data.length - offset
    let dlen := if 0 < len ∧ len < dlen then len else dlen
    let hbsize := bsize / 2 - 1
    let rlen := if bsize.toNat ≤ dlen then bsize.toNat - 1 else dlen
    if !isHex then some (pdata.take rlen ++ [0])
    else
      let rlen := if hbsize.toNat ≤ dlen then hbsize.toNat else dlen
      some (ruleToHexWithBuff (pdata.take rlen))

theorem char_toNat {n : ℕ} (hn : n < 256) : (Char.ofNat n).toNat = n := by
  have hvalid : n.isValidChar := Or.inl (by omega)
  rw [Char.ofNat, dif_pos hvalid]
  rfl

/-- The text that ends at the first null byte; without an answer it is empty. -/
def textOf (answer : Option (List UInt8)) : Text where
  chars := ((answer.getD []).takeWhile (· != 0)).map fun byte => Char.ofNat byte.toNat
  noNul := by
    intro hnul
    obtain ⟨byte, hbyte, heq⟩ := List.mem_map.1 hnul
    have hne := List.mem_takeWhile_imp hbyte
    have hzero : byte.toNat = 0 := by
      have hval := congrArg Char.toNat heq
      rwa [char_toNat byte.toNat_lt] at hval
    rw [bne_iff_ne] at hne
    exact hne (UInt8.toNat_inj.1 hzero)

def dataTarget (isMyProto : ℤ → Bool) (bsize : UInt64) (field : ℕ → List UInt8) : Target :=
  ⟨isMyProto, fun target isHex =>
    textOf (ruleDataGet bsize (field target.target) target.offset target.len isHex)⟩

/-- The bytes that an item asks for: from an offset, and `len` of them where it is given. -/
def slice (data : List UInt8) (offset len : ℕ) : List UInt8 :=
  if len = 0 then data.drop offset else (data.drop offset).take len

def hexOf (data : List UInt8) : List UInt8 :=
  data.flatMap fun byte =>
    [(Nat.digitChar (byte.toNat / 16)).toUInt8, (Nat.digitChar (byte.toNat % 16)).toUInt8]

/-- The slice in its encoding, as much of it as fits in front of the terminating null. -/
def encodedSlice (bsize : ℕ) (data : List UInt8) (offset len : ℕ) (isHex : Bool) : List UInt8 :=
  if isHex then hexOf ((slice data offset len).take (bsize / 2 - 1))
  else (slice data offset len).take (bsize - 1)

theorem b2hex_digit {n : ℕ} (hn : n < 16) : b2hex.getD n 0 = (Nat.digitChar n).toUInt8 := by
  interval_cases n <;> rfl

theorem hexDigit_ne_zero {n : ℕ} (hn : n < 16) : (Nat.digitChar n).toUInt8 ≠ 0 := by
  interval_cases n <;> decide

theorem ruleToHexWithBuff_eq (data : List UInt8) : ruleToHexWithBuff data = hexOf data ++ [0] := by
  rw [ruleToHexWithBuff, hexOf]
  refine congrArg (· ++ [0]) (List.flatMap_congr fun byte _ => ?_)
  have hbyte := byte.toNat_lt
  have hhigh : byte.toNat >>> 4 = byte.toNat / 16 := Nat.shiftRight_eq_div_pow _ 4
  have hlow : byte.toNat &&& 15 = byte.toNat % 16 := Nat.and_two_pow_sub_one_eq_mod _ 4
  rw [hhigh, hlow, b2hex_digit (by omega), b2hex_digit (by omega)]

theorem hexOf_length (data : List UInt8) : (hexOf data).length = 2 * data.length := by
  induction data with
  | nil => rfl
  | cons byte data ih =>
    rw [hexOf, List.flatMap_cons, List.length_append, List.length_cons, ← hexOf, ih]
    simp only [List.length_cons, List.length_nil]
    omega

theorem hexOf_ne_zero {data : List UInt8} : ∀ digit ∈ hexOf data, digit ≠ 0 := by
  intro digit hdigit
  obtain ⟨byte, -, hpair⟩ := List.mem_flatMap.1 hdigit
  have hbyte := byte.toNat_lt
  rcases List.mem_pair.1 hpair with rfl | rfl
  · exact hexDigit_ne_zero (by omega)
  · exact hexDigit_ne_zero (by omega)

theorem slice_length (data : List UInt8) (offset len : ℕ) :
    (slice data offset len).length =
      if 0 < len ∧ len < data.length - offset then len else data.length - offset := by
  rw [slice]
  split
  · rename_i hlen
    rw [if_neg (by omega), List.length_drop]
  · rw [List.length_take, List.length_drop]
    split <;> omega

theorem drop_take_slice {data : List UInt8} {offset len n : ℕ}
    (hn : n ≤ (slice data offset len).length) :
    (data.drop offset).take n = (slice data offset len).take n := by
  rw [slice] at hn ⊢
  split
  · rfl
  · rename_i hlen
    rw [if_neg hlen, List.length_take] at hn
    rw [List.take_take, Nat.min_eq_left (by omega)]

theorem take_clip {α : Type} {as : List α} (n : ℕ) :
    as.take (if n ≤ as.length then n else as.length) = as.take n := by
  split
  · rfl
  · rw [List.take_length, List.take_of_length_le (by omega)]

theorem ruleDataGet_eq {bsize : UInt64} (hbsize : 0 < bsize) (data : List UInt8) (offset len : ℕ)
    {isHex : Bool} (hhex : isHex = true → 2 ≤ bsize) :
    ruleDataGet bsize data offset len isHex =
      if slice data offset len = [] then none
      else some (encodedSlice bsize.toNat data offset len isHex ++ [0]) := by
  have hpos : 0 < bsize.toNat := hbsize
  have hzero : ¬ bsize ≤ 0 := UInt64.not_le.2 hbsize
  have hlen := slice_length data offset len
  rw [ruleDataGet]
  by_cases hempty : data.length ≤ offset
  · have hslice : slice data offset len = [] := by
      rw [← List.length_eq_zero_iff, hlen]
      split <;> omega
    rw [if_pos (Or.inr (Or.inr hempty)), if_pos hslice]
  · have hslice : slice data offset len ≠ [] := by
      rw [ne_eq, ← List.length_eq_zero_iff, hlen]
      split <;> omega
    have hdata : ¬ (bsize ≤ 0 ∨ data.length = 0 ∨ data.length ≤ offset) := by
      rintro (h | h | h)
      · exact hzero h
      · omega
      · exact hempty h
    rw [if_neg hdata, if_neg hslice]
    simp only [← hlen]
    cases isHex with
    | false =>
      have hclip : (if bsize.toNat ≤ (slice data offset len).length then bsize.toNat - 1
          else (slice data offset len).length) ≤ (slice data offset len).length := by
        split <;> omega
      rw [Bool.not_false, if_pos rfl, drop_take_slice hclip, encodedSlice,
        if_neg Bool.false_ne_true]
      split
      · rfl
      · rw [List.take_length, List.take_of_length_le (by omega)]
    | true =>
      have htwo : 2 ≤ bsize.toNat := hhex rfl
      have hhalf : (bsize / 2 - 1).toNat = bsize.toNat / 2 - 1 := by
        have hdiv : (bsize / 2).toNat = bsize.toNat / 2 := UInt64.toNat_div bsize 2
        have hone : (1 : UInt64) ≤ bsize / 2 := by
          rw [UInt64.le_iff_toNat_le, hdiv]
          exact (Nat.le_div_iff_mul_le (by norm_num)).2 htwo
        rw [UInt64.toNat_sub_of_le _ _ hone, hdiv]
        rfl
      have hclip : (if bsize.toNat / 2 - 1 ≤ (slice data offset len).length then
          bsize.toNat / 2 - 1 else (slice data offset len).length) ≤
            (slice data offset len).length := by
        split <;> omega
      rw [Bool.not_true, if_neg Bool.false_ne_true, hhalf, drop_take_slice hclip, take_clip,
        ruleToHexWithBuff_eq, encodedSlice, if_pos rfl]

theorem encodedSlice_fits {bsize : ℕ} (hbsize : 0 < bsize) (data : List UInt8) (offset len : ℕ)
    {isHex : Bool} (hhex : isHex = true → 2 ≤ bsize) :
    (encodedSlice bsize data offset len isHex).length + 1 ≤ bsize := by
  rw [encodedSlice]
  split
  · rename_i h
    have htwo := hhex h
    rw [hexOf_length, List.length_take]
    omega
  · rw [List.length_take]
    omega

theorem encodedSlice_nil {bsize : ℕ} {data : List UInt8} {offset len : ℕ} {isHex : Bool}
    (h : slice data offset len = []) : encodedSlice bsize data offset len isHex = [] := by
  cases isHex <;> simp [encodedSlice, h, hexOf]

theorem textOf_ruleDataGet {bsize : UInt64} (hbsize : 0 < bsize) (data : List UInt8)
    (offset len : ℕ) {isHex : Bool} (hhex : isHex = true → 2 ≤ bsize) :
    (textOf (ruleDataGet bsize data offset len isHex)).chars =
      (if isHex then encodedSlice bsize.toNat data offset len isHex
        else (encodedSlice bsize.toNat data offset len isHex).takeWhile (· != 0)).map
          fun byte => Char.ofNat byte.toNat := by
  have hstop : ∀ bytes : List UInt8,
      (bytes ++ [0]).takeWhile (· != 0) = bytes.takeWhile (· != 0) := by
    intro bytes
    induction bytes with
    | nil => rfl
    | cons byte bytes ih => rw [List.cons_append, List.takeWhile_cons, List.takeWhile_cons, ih]
  have hhexed : isHex = true → (encodedSlice bsize.toNat data offset len isHex).takeWhile (· != 0) =
      encodedSlice bsize.toNat data offset len isHex := by
    intro h
    rw [encodedSlice, if_pos h, List.takeWhile_eq_self_iff]
    intro digit hdigit
    exact bne_iff_ne.2 (hexOf_ne_zero digit hdigit)
  have hchars : (textOf (ruleDataGet bsize data offset len isHex)).chars =
      ((encodedSlice bsize.toNat data offset len isHex).takeWhile (· != 0)).map
        fun byte => Char.ofNat byte.toNat := by
    have hget := ruleDataGet_eq hbsize data offset len hhex
    split at hget
    · rename_i hslice
      rw [hget, encodedSlice_nil hslice]
      rfl
    · simp only [textOf, hget, Option.getD_some, hstop]
  rw [hchars]
  cases isHex with
  | true => rw [hhexed rfl, if_pos rfl]
  | false => rw [if_neg Bool.false_ne_true]

/-- The verdict on every rule is the rule's formula, and the slices that the formula is
evaluated on are what their offset, length and encoding say. -/
theorem rule_semantics (tcontext : Target) (rpool : RulePool) (bsize : UInt64) (data : List UInt8)
    (offset len : ℕ) (isHex : Bool) (hbsize : 0 < bsize) (hhex : isHex = true → 2 ≤ bsize) :
    ((∀ rule ∈ rpool.rules, (doMatchRule tcontext rule = true ↔ RuleHolds tcontext rule)) ∧
      (ruleMatch tcontext rpool = true ↔ ∃ rule ∈ rpool.rules, RuleHolds tcontext rule)) ∧
    (ruleDataGet bsize data offset len isHex =
        (if slice data offset len = [] then none
          else some (encodedSlice bsize.toNat data offset len isHex ++ [0])) ∧
      ∀ written ∈ ruleDataGet bsize data offset len isHex, written.length ≤ bsize.toNat) ∧
    (textOf (ruleDataGet bsize data offset len isHex)).chars =
      (if isHex then encodedSlice bsize.toNat data offset len isHex
        else (encodedSlice bsize.toNat data offset len isHex).takeWhile (· != 0)).map
          fun byte => Char.ofNat byte.toNat := by
  refine ⟨⟨fun rule _ => doMatchRule_iff tcontext rule, ruleMatch_iff tcontext rpool⟩,
    ⟨ruleDataGet_eq hbsize data offset len hhex, ?_⟩,
    textOf_ruleDataGet hbsize data offset len hhex⟩
  intro written hwritten
  rw [ruleDataGet_eq hbsize data offset len hhex] at hwritten
  split at hwritten
  · cases hwritten
  · obtain rfl := Option.some.inj hwritten
    rw [List.length_append, List.length_singleton]
    exact encodedSlice_fits hbsize data offset len hhex

theorem rule_semantics_payload :
    (∀ rule ∈ [eqRule 7 ⟨['a'], by decide⟩],
      (doMatchRule (dataTarget (· == 1) 2048 fun _ => [97]) rule = true ↔
        RuleHolds (dataTarget (· == 1) 2048 fun _ => [97]) rule)) ∧
    ruleDataGet 2048 [1, 255, 3] 1 1 true = some [102, 102, 0] := by
  have hsemantics := rule_semantics (dataTarget (· == 1) 2048 fun _ => [97])
    ⟨[eqRule 7 ⟨['a'], by decide⟩], false⟩ 2048 [1, 255, 3] 1 1 true (by decide) (by decide)
  refine ⟨hsemantics.1.1, hsemantics.2.1.1.trans ?_⟩
  decide

def itemRule (ritem : RuleItem) : Rule := ⟨⟨true, true, [ritem]⟩, 7, 1⟩

theorem noNul_nil : '\x00' ∉ ([] : List Char) := by decide

theorem noNul_v : '\x00' ∉ ['v'] := by decide

theorem noNul_a : '\x00' ∉ ['a'] := by decide

theorem noNul_b : '\x00' ∉ ['b'] := by decide

def emptyTarget : Target := ⟨fun proto => proto == 1, fun _ _ => ⟨[], noNul_nil⟩⟩

/-- The field is "a" and "b", and the field does not contain "a". -/
def bothItem : RuleItem :=
  ⟨⟨0, 0, 0⟩, .eq, ⟨['v'], noNul_v⟩, [⟨['a'], noNul_a⟩, ⟨['b'], noNul_b⟩], true, true, false, false⟩

def withoutItem : RuleItem :=
  ⟨⟨0, 0, 0⟩, .contains, ⟨['a'], noNul_a⟩, [], false, false, false, true⟩

/-- The array of an item may be a conjunction, a negated item fails on an empty text, a text
ends at a null byte of its slice, and a slice ends where its buffer does. -/
theorem rule_not_disjunction :
    ((∃ mvalue ∈ bothItem.arrValues,
        OpMeaning (oneTarget.text bothItem) mvalue.chars bothItem.op) ∧
      doMatchRule oneTarget (itemRule bothItem) = false) ∧
    (¬ OpMeaning (emptyTarget.text withoutItem) withoutItem.value.chars withoutItem.op ∧
      doMatchRule emptyTarget (itemRule withoutItem) = false) ∧
    ((97 ∈ slice [98, 0, 97] 0 0 ∧
        (textOf (ruleDataGet 2048 [98, 0, 97] 0 0 false)).chars = ['b']) ∧
      (slice [97, 98] 0 0 = [97, 98] ∧ ruleDataGet 2 [97, 98] 0 0 false = some [97, 0])) := by
  have hempty : ¬ (['a'] : List Char) <:+: [] := by decide
  refine ⟨⟨⟨⟨['a'], by decide⟩, by decide, rfl⟩, by decide⟩, ⟨hempty, by decide⟩, ?_, ?_⟩
  · exact ⟨by decide, by decide⟩
  · exact ⟨by decide, by decide⟩

end CloudHands.RuleEngine
