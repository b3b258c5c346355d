import CloudHands.Rule.RuleMatch

/-!
# What the items of a rule mean

The formula that an item denotes, and the C matcher's item as a decision of it. The formula
says which item decides a rule and which value decides an item.
-/

namespace CloudHands.RuleMatch

open Lib

def OpMeaning (tvalue mvalue : List Char) : Op → Prop
  | .contains => mvalue <:+: tvalue
  | .startsWith => mvalue <+: tvalue
  | .endsWith => mvalue <:+ tvalue
  | .eq => tvalue = mvalue
  | .lt => strtol tvalue < strtol mvalue
  | .gt => strtol mvalue < strtol tvalue
  | .le => strtol tvalue ≤ strtol mvalue
  | .ge => strtol mvalue ≤ strtol tvalue

def itemValues (ritem : RuleItem) : List Text :=
  if ritem.isArray then ritem.arrValues else [ritem.value]

def ValuesHold (tvalue : List Char) (ritem : RuleItem) : Prop :=
  if ritem.isAnd then
    ∀ mvalue ∈ itemValues ritem, mvalue.chars ≠ [] ∧ OpMeaning tvalue mvalue.chars ritem.op
  else ∃ mvalue ∈ itemValues ritem, mvalue.chars ≠ [] ∧ OpMeaning tvalue mvalue.chars ritem.op

def ItemHolds (tvalue : List Char) (ritem : RuleItem) : Prop :=
  (tvalue ≠ [] ∧ ritem.value.chars ≠ [] ∧ itemValues ritem ≠ []) ∧
    if ritem.isnot then ¬ ValuesHold tvalue ritem else ValuesHold tvalue ritem

theorem prefix_drop_iff {target vs : List Char} {c : Char} {i : ℕ}
    (hi : i + vs.length < target.length) :
    (target[i]? == some c && ((c :: vs).length == 1 ||
      (target.drop (i + 1)).take ((c :: vs).length - 1) == (c :: vs).drop 1)) = true ↔
        c :: vs <+: target.drop i := by
  have hlt : i < target.length := by omega
  have hdrop : target.drop i = target[i] :: target.drop (i + 1) := List.drop_eq_getElem_cons hlt
  rw [hdrop, List.cons_prefix_cons, List.prefix_iff_eq_take, List.getElem?_eq_getElem hlt,
    Bool.and_eq_true, beq_iff_eq, Option.some.injEq, eq_comm]
  refine and_congr_right fun _ => ?_
  cases vs with
  | nil => simp
  | cons v vs =>
    rw [Bool.or_eq_true, beq_iff_eq, beq_iff_eq, List.length_cons, List.drop_one, List.tail_cons,
      Nat.add_sub_cancel, eq_comm (a := List.take _ _)]
    simp

theorem infix_iff_prefix_drop {target value : List Char} :
    value <:+: target ↔ ∃ i, i + value.length ≤ target.length ∧ value <+: target.drop i := by
  constructor
  · rintro ⟨before, after, rfl⟩
    refine ⟨before.length, by simp, after, ?_⟩
    simp
  · rintro ⟨i, -, hprefix⟩
    exact hprefix.isInfix.trans (List.drop_suffix i target).isInfix

theorem ruleOpContains_eq {target value : List Char} (hvalue : value ≠ []) :
    C.ruleOpContains target value = decide (value <:+: target) := by
  obtain ⟨c, vs, rfl⟩ := List.exists_cons_of_ne_nil hvalue
  rw [Bool.eq_iff_iff, decide_eq_true_iff, infix_iff_prefix_drop]
  by_cases hlen : target.length < (c :: vs).length
  · have hnot : C.ruleOpContains target (c :: vs) = false := by
      rw [C.ruleOpContains, if_pos hlen, ite_self]
    rw [hnot]
    constructor
    · simp
    · rintro ⟨i, hi, -⟩
      omega
  · have hscan : C.ruleOpContains target (c :: vs) =
        (List.range (target.length - (c :: vs).length + 1)).any fun i =>
          target[i]? == some c && ((c :: vs).length == 1 ||
            (target.drop (i + 1)).take ((c :: vs).length - 1) == (c :: vs).drop 1) := by
      have htarget : ¬ ((c :: vs).length = 0 ∨ target.length = 0) := by
        simp only [List.length_cons] at hlen ⊢
        omega
      rw [C.ruleOpContains, if_neg htarget, if_neg hlen]
      rfl
    rw [hscan, List.any_eq_true]
    simp only [List.length_cons] at hlen ⊢
    constructor
    · rintro ⟨i, hi, htest⟩
      have hle := List.mem_range.1 hi
      exact ⟨i, by omega, (prefix_drop_iff (by omega)).1 htest⟩
    · rintro ⟨i, hi, hprefix⟩
      exact ⟨i, List.mem_range.2 (by omega), (prefix_drop_iff (by omega)).2 hprefix⟩

theorem ruleOpStartsWith_eq {target value : List Char} (hvalue : value ≠ []) :
    C.ruleOpStartsWith target value = decide (value <+: target) := by
  rw [Bool.eq_iff_iff, decide_eq_true_iff, List.prefix_iff_eq_take]
  have hpos : 0 < value.length := List.length_pos_iff.2 hvalue
  by_cases hlen : target.length < value.length
  · have hne : value ≠ target.take value.length := by
      intro heq
      have hle := congrArg List.length heq
      rw [List.length_take] at hle
      omega
    simp [C.ruleOpStartsWith, hlen, hne]
  · have hempty : ¬ (value.length = 0 ∨ target.length = 0) := by omega
    rw [C.ruleOpStartsWith, if_neg hempty, if_neg hlen, beq_iff_eq]
    exact eq_comm

theorem ruleOpEndsWith_eq {target value : List Char} (hvalue : value ≠ []) :
    C.ruleOpEndsWith target value = decide (value <:+ target) := by
  rw [Bool.eq_iff_iff, decide_eq_true_iff, List.suffix_iff_eq_drop]
  have hpos : 0 < value.length := List.length_pos_iff.2 hvalue
  by_cases hlen : target.length < value.length
  · have hne : value ≠ target.drop (target.length - value.length) := by
      intro heq
      have hle := congrArg List.length heq
      rw [List.length_drop] at hle
      omega
    simp [C.ruleOpEndsWith, hlen, hne]
  · have hempty : ¬ (value.length = 0 ∨ target.length = 0) := by omega
    rw [C.ruleOpEndsWith, if_neg hempty, if_neg hlen, beq_iff_eq]
    exact eq_comm

theorem ruleOpEq_eq {target value : List Char} (htarget : target ≠ []) :
    C.ruleOpEq target value = (target == value) := by
  have hpos : 0 < target.length := List.length_pos_iff.2 htarget
  by_cases hlen : value.length = target.length
  · have hempty : ¬ (value.length = 0 ∨ target.length = 0) := by omega
    rw [C.ruleOpEq, if_neg hempty, if_neg (not_not.2 hlen), hlen, List.take_length]
  · have hne : target ≠ value := fun heq => hlen (by rw [heq])
    simp [C.ruleOpEq, hlen, hne]

theorem matchLoop_singleton {α : Type} {isAnd : Bool} (f : α → Bool) (a : α) :
    matchLoop isAnd f [a] = f a := by
  cases isAnd <;> cases hf : f a <;> simp [matchLoop, hf]

def valuesMatch (tvalue : List Char) (ritem : RuleItem) : Bool :=
  if ritem.isArray then
    matchLoop ritem.isAnd (fun s : Text => C.matchOpSimple tvalue s.chars ritem.op) ritem.arrValues
  else C.matchOpSimple tvalue ritem.value.chars ritem.op

theorem matchLoop_eq_not_iff {α : Type} {isAnd : Bool} {g : α → Bool} (as : List α) :
    matchLoop isAnd g as = !isAnd ↔ ∃ a ∈ as, g a = !isAnd := by
  induction as with
  | nil => cases isAnd <;> simp [matchLoop]
  | cons a as ih =>
    rw [matchLoop, List.exists_mem_cons_iff, ← ih]
    cases g a <;> cases isAnd <;> simp

theorem matchLoop_eq_iff {α : Type} {isAnd : Bool} {g : α → Bool} (as : List α) :
    matchLoop isAnd g as = isAnd ↔ ∀ a ∈ as, g a = isAnd := by
  have hiff := not_congr (@matchLoop_eq_not_iff _ isAnd g as)
  simpa using hiff

theorem matchLoop_iff {α : Type} {isAnd : Bool} {test : α → Bool} (as : List α) :
    matchLoop isAnd test as = true ↔
      if isAnd then ∀ a ∈ as, test a = true else ∃ a ∈ as, test a = true := by
  cases isAnd with
  | true => exact matchLoop_eq_iff as
  | false => exact matchLoop_eq_not_iff as

theorem ruleOpCompare_iff {compare : ℤ → ℤ → Bool} {tvalue mvalue : List Char}
    (htvalue : tvalue ≠ []) :
    C.ruleOpCompare compare tvalue mvalue = true ↔
      mvalue ≠ [] ∧ compare (strtol tvalue) (strtol mvalue) = true := by
  rw [C.ruleOpCompare]
  split
  · rename_i hempty
    have hmvalue : mvalue = [] := by simpa [htvalue] using hempty
    simp [hmvalue]
  · rename_i hempty
    have hmvalue : mvalue ≠ [] := by simpa [htvalue] using hempty
    simp [hmvalue]

theorem matchOpSimple_nil (tvalue : List Char) (op : Op) :
    C.matchOpSimple tvalue [] op = false := by
  cases op <;> rfl

theorem matchOpSimple_iff {tvalue : List Char} (htvalue : tvalue ≠ []) (mvalue : List Char)
    (op : Op) :
    C.matchOpSimple tvalue mvalue op = true ↔ mvalue ≠ [] ∧ OpMeaning tvalue mvalue op := by
  by_cases hmvalue : mvalue = []
  · rw [hmvalue, matchOpSimple_nil]
    simp
  · cases op with
    | contains => simp [C.matchOpSimple, ruleOpContains_eq hmvalue, OpMeaning, hmvalue]
    | startsWith => simp [C.matchOpSimple, ruleOpStartsWith_eq hmvalue, OpMeaning, hmvalue]
    | endsWith => simp [C.matchOpSimple, ruleOpEndsWith_eq hmvalue, OpMeaning, hmvalue]
    | eq => simp [C.matchOpSimple, ruleOpEq_eq htvalue, OpMeaning, hmvalue]
    | lt =>
      rw [C.matchOpSimple, C.ruleOpLt, ruleOpCompare_iff htvalue, OpMeaning,
        decide_eq_true_iff]
    | gt =>
      rw [C.matchOpSimple, C.ruleOpGt, ruleOpCompare_iff htvalue, OpMeaning,
        decide_eq_true_iff]
    | le =>
      rw [C.matchOpSimple, C.ruleOpLe, ruleOpCompare_iff htvalue, OpMeaning,
        decide_eq_true_iff]
    | ge =>
      rw [C.matchOpSimple, C.ruleOpGe, ruleOpCompare_iff htvalue, OpMeaning,
        decide_eq_true_iff]

theorem valuesMatch_iff {tvalue : List Char} (htvalue : tvalue ≠ []) (ritem : RuleItem) :
    valuesMatch tvalue ritem = true ↔ ValuesHold tvalue ritem := by
  have hloop : valuesMatch tvalue ritem =
      matchLoop ritem.isAnd (fun s : Text => C.matchOpSimple tvalue s.chars ritem.op)
        (itemValues ritem) := by
    rw [valuesMatch, itemValues]
    split
    · rfl
    · rw [matchLoop_singleton]
  rw [hloop, matchLoop_iff, ValuesHold]
  simp only [matchOpSimple_iff htvalue]

theorem itemValues_ne_nil {ritem : RuleItem} :
    itemValues ritem ≠ [] ↔ (ritem.isArray = true → ritem.arrValues ≠ []) := by
  rw [itemValues]
  split <;> simp_all

theorem doMatchItem_eq {context : TargetContext} {ritem : RuleItem}
    (htarget : (context.text ritem) ≠ [])
    (hvalue : ritem.value.chars ≠ []) (harray : ritem.isArray = true → ritem.arrValues ≠ []) :
    C.doMatchItem context ritem =
      if ritem.isnot then !valuesMatch (context.text ritem) ritem
      else valuesMatch (context.text ritem) ritem := by
  unfold C.doMatchItem valuesMatch
  cases hisArray : ritem.isArray with
  | true => simp [htarget, hvalue, harray hisArray, C.matchOpArrays]
  | false => simp [htarget, hvalue]

theorem doMatchItem_iff (context : TargetContext) (ritem : RuleItem) :
    C.doMatchItem context ritem = true ↔ ItemHolds (context.text ritem) ritem := by
  rw [ItemHolds, itemValues_ne_nil]
  by_cases hok : context.text ritem ≠ [] ∧ ritem.value.chars ≠ [] ∧
      (ritem.isArray = true → ritem.arrValues ≠ [])
  · obtain ⟨htext, hvalue, harray⟩ := hok
    rw [doMatchItem_eq htext hvalue harray, and_iff_right ⟨htext, hvalue, harray⟩,
      ← valuesMatch_iff htext]
    cases ritem.isnot <;> simp
  · have hfails : C.doMatchItem context ritem = false := by
      rw [C.doMatchItem]
      by_cases hempty : ritem.value.chars = [] ∨ context.text ritem = []
      · rw [if_pos hempty]
      · obtain ⟨hvalue, htext⟩ := not_or.1 hempty
        have harray : ritem.isArray = true ∧ ritem.arrValues = [] := by
          simpa [htext, hvalue] using hok
        simp [htext, hvalue, harray.1, harray.2]
    simp only [hfails, hok, false_and, Bool.false_eq_true]

end CloudHands.RuleMatch
