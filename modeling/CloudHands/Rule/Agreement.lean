import CloudHands.Rule.Meaning

/-!
# Where the three matchers agree

The matchers differ on negated items with an empty text or an empty array, on array values
that are empty, on texts that only differ in case, and on texts that are not plain 32-bit
integers. They return the same truth value when they come to no such item before the rule is
decided, or when what stands behind the first one hides the difference.
-/

namespace CloudHands.RuleMatch

open Lib

def PlainInt (s : List Char) : Prop := (parseSigned asciiDigit (-2 ^ 31) (2 ^ 31 - 1) s).isSome

instance (s : List Char) : Decidable (PlainInt s) :=
  inferInstanceAs (Decidable ((parseSigned asciiDigit (-2 ^ 31) (2 ^ 31 - 1) s).isSome = true))

def ValueSafe (u : UnicodeTables) (tvalue s : List Char) : Op → Prop
  | .contains | .startsWith | .endsWith => s ≠ []
  | .eq => Go.equalFold u tvalue s = true → tvalue = s
  | .lt | .gt | .le | .ge => PlainInt tvalue ∧ PlainInt s

def SafeUpTo {α : Type} (isAnd : Bool) (safe holds : α → Prop) : List α → Prop
  | [] => True
  | a :: as => safe a ∧ ((holds a ↔ isAnd = true) → SafeUpTo isAnd safe holds as)

def ValuesSafe (u : UnicodeTables) (tvalue : List Char) (ritem : RuleItem) : List Text → Prop :=
  SafeUpTo ritem.isAnd (fun s => ValueSafe u tvalue s.chars ritem.op)
    fun s => s.chars ≠ [] ∧ OpMeaning tvalue s.chars ritem.op

def ItemSafe (u : UnicodeTables) (tvalue : List Char) (ritem : RuleItem) : Prop :=
  if tvalue = [] ∨ ritem.value.chars = [] then ritem.isnot = false
  else if itemValues ritem = [] then ritem.isAnd = ritem.isnot
  else ValuesSafe u tvalue ritem (itemValues ritem)

def ItemsSafe (u : UnicodeTables) (context : TargetContext) (isAnd : Bool) :
    List RuleItem → Prop :=
  SafeUpTo isAnd (fun ritem => ItemSafe u (context.text ritem) ritem)
    fun ritem => ItemHolds (context.text ritem) ritem

/-- A rule the matchers are applied to: it is enabled, it is of the target's protocol, and its
items are safe on the target up to the first one that decides it. -/
structure RuleSafe (u : UnicodeTables) (context : TargetContext) (rule : Rule) : Prop where
  isEnable : rule.isEnable = true
  isMyProto : context.isMyProto = true
  items : ItemsSafe u context rule.isAnd rule.items

def Agree (u : UnicodeTables) (context : TargetContext) (rule : Rule) : Prop :=
  Java.isMatch u context rule = some (C.doMatchRule context rule) ∧
    Go.isMatch u context rule = C.doMatchRule context rule

theorem PlainInt.java {s : List Char} (h : PlainInt s) (u : UnicodeTables) :
    Java.parseInt u s = some (strtol s) := by
  obtain ⟨v, hv⟩ := Option.isSome_iff_exists.1 h
  rw [strtol_of_parseSigned (by norm_num) (by norm_num) hv]
  exact parseSigned_extend u.digit_ascii le_rfl le_rfl hv

theorem PlainInt.go {s : List Char} (h : PlainInt s) : Go.parseInt s = some (strtol s) := by
  obtain ⟨v, hv⟩ := Option.isSome_iff_exists.1 h
  rw [strtol_of_parseSigned (by norm_num) (by norm_num) hv]
  exact parseSigned_extend (fun _ _ => rfl) (by norm_num) (by norm_num) hv

theorem PlainInt.ne_nil {s : List Char} (h : PlainInt s) : s ≠ [] := by
  rintro rfl
  simp [PlainInt, parseSigned, splitSign] at h

theorem ruleOpCompare_of_plain (compare : ℤ → ℤ → Bool) {tvalue s : List Char}
    (ht : PlainInt tvalue) (hs : PlainInt s) :
    C.ruleOpCompare compare tvalue s = compare (strtol tvalue) (strtol s) := by
  have hempty : ¬ (s.length = 0 ∨ tvalue.length = 0) := by
    simp [hs.ne_nil, ht.ne_nil]
  rw [C.ruleOpCompare, if_neg hempty]

theorem compareInt_of_plain (u : UnicodeTables) (compare : ℤ → ℤ → Bool) {tvalue s : List Char}
    (ht : PlainInt tvalue) (hs : PlainInt s) :
    Java.compareInt u compare tvalue s = some (C.ruleOpCompare compare tvalue s) := by
  rw [Java.compareInt, ht.java u, hs.java u, ruleOpCompare_of_plain compare ht hs]

theorem parseBoth_of_plain {tvalue s : List Char} (ht : PlainInt tvalue)
    (hs : PlainInt s) : Go.parseBoth tvalue s = some (strtol tvalue, strtol s) := by
  rw [Go.parseBoth, ht.go, hs.go]

theorem plainInt_of_parseInt (u : UnicodeTables) {s : List Char} {v : ℤ}
    (hs : ∀ c ∈ s, c.toNat < 128) (h : Java.parseInt u s = some v) : PlainInt s := by
  rw [Java.parseInt, parseSigned_ascii _ _ u.digit_ascii hs] at h
  rw [PlainInt, h]
  rfl

theorem plainInt_of_compareInt (u : UnicodeTables) {compare : ℤ → ℤ → Bool} {tvalue s : List Char}
    {b : Bool} (ht : ∀ c ∈ tvalue, c.toNat < 128) (hs : ∀ c ∈ s, c.toNat < 128)
    (h : Java.compareInt u compare tvalue s = some b) : PlainInt tvalue ∧ PlainInt s := by
  rw [Java.compareInt] at h
  cases htv : Java.parseInt u tvalue with
  | none => simp [htv] at h
  | some t =>
    cases hsv : Java.parseInt u s with
    | none => simp [htv, hsv] at h
    | some v => exact ⟨plainInt_of_parseInt u ht htv, plainInt_of_parseInt u hs hsv⟩

section Loops

variable {α : Type} {isAnd : Bool} {safe holds : α → Prop}

theorem matchLoopThrowing_some (f : α → Bool) (as : List α) :
    matchLoopThrowing isAnd (fun a => some (f a)) as = some (matchLoop isAnd f as) := by
  induction as with
  | nil => rfl
  | cons a as ih =>
    simp only [matchLoopThrowing, matchLoop, ih]
    split_ifs <;> rfl

theorem matchLoopThrowing_singleton (f : α → Option Bool) (a : α) :
    matchLoopThrowing isAnd f [a] = f a := by
  rw [matchLoopThrowing]
  cases f a with
  | none => rfl
  | some res => cases isAnd <;> cases res <;> simp [matchLoopThrowing]

/-- The loop passes elements up to one that decides it. A test without a result ends the loop with
`stop`. -/
def Decides (isAnd : Bool) (stop : Option Bool) (test : α → Option Bool) : List α → Prop
  | [] => False
  | a :: as =>
    (test a).or stop = some (!isAnd) ∨ test a = some isAnd ∧ Decides isAnd stop test as

/-- Two tests differ on `a`, but the loop that passes `a` is decided behind it as the other is. -/
def DifferenceHidden (isAnd : Bool) (stop : Option Bool) (f : α → Option Bool) (g : α → Bool)
    (a : α) (as : List α) : Prop :=
  (f a = some isAnd ∧ Decides isAnd stop f as) ∨
    ((f a).or stop = some (!isAnd) ∧ ∃ b ∈ a :: as, g b = !isAnd) ∨
    ((f a = none ∧ stop = some isAnd) ∧ ∀ b ∈ a :: as, g b = isAnd)

def LoopsAlike (isAnd : Bool) (stop : Option Bool) (same : α → Prop) (f : α → Option Bool)
    (g : α → Bool) : List α → Prop
  | [] => True
  | a :: as =>
    same a ∧ (g a = isAnd → LoopsAlike isAnd stop same f g as) ∨
      ¬ same a ∧ DifferenceHidden isAnd stop f g a as

def Rejected (isAnd : Bool) (test : α → Option Bool) (as : List α) : Prop :=
  if isAnd then Decides true none test as else ∀ a ∈ as, test a = some false

theorem matchLoopThrowing_decides_iff {stop : Option Bool} {f : α → Option Bool} (as : List α) :
    (matchLoopThrowing isAnd f as).or stop = some (!isAnd) ↔ Decides isAnd stop f as := by
  induction as with
  | nil => cases isAnd <;> simp [matchLoopThrowing, Decides]
  | cons a as ih =>
    rw [Decides, ← ih, matchLoopThrowing]
    cases f a with
    | none => simp
    | some res => cases res <;> cases isAnd <;> simp

theorem matchLoopThrowing_passes_iff {f : α → Option Bool} (as : List α) :
    matchLoopThrowing isAnd f as = some isAnd ↔ ∀ a ∈ as, f a = some isAnd := by
  induction as with
  | nil => simp [matchLoopThrowing]
  | cons a as ih =>
    rw [matchLoopThrowing, List.forall_mem_cons, ← ih]
    cases f a with
    | none => simp
    | some res => cases res <;> cases isAnd <;> simp

theorem rejected_iff {f : α → Option Bool} (as : List α) :
    matchLoopThrowing isAnd f as = some false ↔ Rejected isAnd f as := by
  rw [Rejected]
  cases isAnd with
  | true =>
    rw [if_pos rfl, ← matchLoopThrowing_decides_iff, Option.or_none]
    rfl
  | false =>
    rw [if_neg Bool.false_ne_true]
    exact matchLoopThrowing_passes_iff as

theorem loopsAlike_iff {stop : Option Bool} {same : α → Prop} {f : α → Option Bool} {g : α → Bool}
    {as : List α} (hsame : ∀ a ∈ as, same a ↔ f a = some (g a)) :
    (matchLoopThrowing isAnd f as).or stop = some (matchLoop isAnd g as) ↔
      LoopsAlike isAnd stop same f g as := by
  induction as with
  | nil => simp [matchLoopThrowing, matchLoop, LoopsAlike]
  | cons a as ih =>
    rw [List.forall_mem_cons] at hsame
    rw [LoopsAlike, ← ih hsame.2, hsame.1, DifferenceHidden, ← matchLoopThrowing_decides_iff,
      ← matchLoop_eq_not_iff, ← matchLoop_eq_iff, matchLoopThrowing, matchLoop]
    cases f a with
    | none =>
      cases stop with
      | none => simp
      | some res => cases res <;> cases g a <;> cases isAnd <;> simp
    | some res => cases res <;> cases g a <;> cases isAnd <;> simp

theorem SafeUpTo.alike {stop : Option Bool} {same : α → Prop} {f : α → Option Bool} {g : α → Bool}
    (hsame : ∀ a, safe a → same a) (hg : ∀ a, g a = true ↔ holds a) {as : List α}
    (h : SafeUpTo isAnd safe holds as) : LoopsAlike isAnd stop same f g as := by
  induction as with
  | nil => trivial
  | cons a as ih =>
    obtain ⟨ha, hrest⟩ := h
    rw [← hg a, ← Bool.eq_iff_iff] at hrest
    exact .inl ⟨hsame a ha, fun hpass => ih (hrest hpass)⟩

end Loops

variable {u : UnicodeTables} {tvalue : List Char}

theorem equalFold_self (u : UnicodeTables) (s : List Char) : Go.equalFold u s s = true := by
  induction s with
  | nil => rfl
  | cons c s ih => simp [Go.equalFold, u.sameFold_refl, ih]

theorem ValueSafe.equalFold {s : List Char} (h : ValueSafe u tvalue s .eq) :
    Go.equalFold u tvalue s = (tvalue == s) := by
  by_cases heq : tvalue = s
  · simp [heq, equalFold_self]
  · have hnot : Go.equalFold u tvalue s = false := by
      cases hfold : Go.equalFold u tvalue s with
      | false => rfl
      | true => exact absurd (h hfold) heq
    simp [hnot, heq]

theorem ValueSafe.java {s : List Char} {op : Op} (htarget : tvalue ≠ [])
    (h : ValueSafe u tvalue s op) :
    Java.opTest u tvalue s op = some (C.matchOpSimple tvalue s op) := by
  cases op with
  | contains => rw [Java.opTest, C.matchOpSimple, ruleOpContains_eq h]
  | startsWith => rw [Java.opTest, C.matchOpSimple, ruleOpStartsWith_eq h]
  | endsWith => rw [Java.opTest, C.matchOpSimple, ruleOpEndsWith_eq h]
  | eq => rw [Java.opTest, C.matchOpSimple, ruleOpEq_eq htarget]
  | lt => exact compareInt_of_plain u _ h.1 h.2
  | gt => exact compareInt_of_plain u _ h.1 h.2
  | le => exact compareInt_of_plain u _ h.1 h.2
  | ge => exact compareInt_of_plain u _ h.1 h.2

/-- What an action of `OPActionMap` asks of one value: nothing when an integer does not parse. -/
def goOpTest (u : UnicodeTables) (tvalue s : List Char) : Op → Option Bool
  | .contains => some (decide (s <:+: tvalue))
  | .startsWith => some (decide (s <+: tvalue))
  | .endsWith => some (decide (s <:+ tvalue))
  | .eq => some (Go.equalFold u tvalue s)
  | .lt => (Go.parseBoth tvalue s).map fun n => decide (n.1 < n.2)
  | .gt => (Go.parseBoth tvalue s).map fun n => decide (n.1 > n.2)
  | .le => (Go.parseBoth tvalue s).map fun n => decide (n.1 ≤ n.2)
  | .ge => (Go.parseBoth tvalue s).map fun n => decide (n.1 ≥ n.2)

theorem java_opAction_eq (ritem : RuleItem) : Java.opAction u tvalue ritem =
    matchLoopThrowing ritem.isAnd (fun s : Text => Java.opTest u tvalue s.chars ritem.op)
      (itemValues ritem) := by
  rw [Java.opAction, itemValues]
  split
  · rfl
  · rw [matchLoopThrowing_singleton]

theorem go_textAction_eq (test : List Char → List Char → Bool) (ritem : RuleItem) :
    Go.textAction test tvalue ritem =
      (matchLoopThrowing ritem.isAnd (fun s : Text => some (test tvalue s.chars))
        (itemValues ritem)).getD false := by
  rw [matchLoopThrowing_some, Option.getD_some, Go.textAction, itemValues]
  split
  · rfl
  · exact (matchLoop_singleton (fun s : Text => test tvalue s.chars) ritem.value).symm

theorem go_compareLoop_eq (compare : ℤ → ℤ → Bool) (isAnd : Bool) (ss : List Text) :
    Go.compareLoop compare tvalue isAnd ss =
      (matchLoopThrowing isAnd
        (fun s : Text => (Go.parseBoth tvalue s.chars).map fun n => compare n.1 n.2) ss).getD
          false := by
  induction ss with
  | nil => rfl
  | cons s ss ih =>
    simp only [Go.compareLoop, matchLoopThrowing]
    cases hparse : Go.parseBoth tvalue s.chars with
    | none => rfl
    | some n =>
      obtain ⟨t, v⟩ := n
      simp only [Option.map_some, ih]
      split_ifs <;> rfl

theorem go_compareAction_eq (compare : ℤ → ℤ → Bool) (ritem : RuleItem) :
    Go.compareAction compare tvalue ritem =
      (matchLoopThrowing ritem.isAnd
        (fun s : Text => (Go.parseBoth tvalue s.chars).map fun n => compare n.1 n.2)
          (itemValues ritem)).getD false := by
  rw [Go.compareAction, itemValues]
  split
  · exact go_compareLoop_eq compare ritem.isAnd ritem.arrValues
  · rw [matchLoopThrowing_singleton]
    cases Go.parseBoth tvalue ritem.value.chars with
    | none => rfl
    | some n => rfl

theorem go_opAction_eq (ritem : RuleItem) : Go.opAction u tvalue ritem =
    (matchLoopThrowing ritem.isAnd (fun s : Text => goOpTest u tvalue s.chars ritem.op)
      (itemValues ritem)).getD false := by
  unfold Go.opAction
  cases hop : ritem.op with
  | contains => exact go_textAction_eq _ ritem
  | startsWith => exact go_textAction_eq _ ritem
  | endsWith => exact go_textAction_eq _ ritem
  | eq => exact go_textAction_eq _ ritem
  | lt => exact go_compareAction_eq _ ritem
  | gt => exact go_compareAction_eq _ ritem
  | le => exact go_compareAction_eq _ ritem
  | ge => exact go_compareAction_eq _ ritem

theorem ValueSafe.go {s : List Char} {op : Op} (htarget : tvalue ≠ [])
    (h : ValueSafe u tvalue s op) :
    goOpTest u tvalue s op = some (C.matchOpSimple tvalue s op) := by
  have hplain (compare : ℤ → ℤ → Bool) (h : PlainInt tvalue ∧ PlainInt s) :
      (Go.parseBoth tvalue s).map (fun n => compare n.1 n.2) =
        some (C.ruleOpCompare compare tvalue s) := by
    rw [parseBoth_of_plain h.1 h.2, ruleOpCompare_of_plain compare h.1 h.2]
    rfl
  cases op with
  | contains => rw [goOpTest, C.matchOpSimple, ruleOpContains_eq h]
  | startsWith => rw [goOpTest, C.matchOpSimple, ruleOpStartsWith_eq h]
  | endsWith => rw [goOpTest, C.matchOpSimple, ruleOpEndsWith_eq h]
  | eq => rw [goOpTest, C.matchOpSimple, ruleOpEq_eq htarget, h.equalFold]
  | lt => exact hplain (· < ·) h
  | gt => exact hplain (· > ·) h
  | le => exact hplain (· ≤ ·) h
  | ge => exact hplain (· ≥ ·) h

def ValueAgree (u : UnicodeTables) (tvalue s : List Char) (op : Op) : Prop :=
  Java.opTest u tvalue s op = some (C.matchOpSimple tvalue s op) ∧
    goOpTest u tvalue s op = some (C.matchOpSimple tvalue s op)

/-- A matcher with the test `test` of one value reads the item as the C matcher does. -/
def ItemAlike (tvalue : List Char) (stop : Option Bool) (test : List Char → Option Bool)
    (ritem : RuleItem) : Prop :=
  if tvalue = [] ∨ ritem.value.chars = [] then ritem.isnot = false
  else if itemValues ritem = [] then ritem.isAnd = ritem.isnot
  else
    LoopsAlike ritem.isAnd stop
      (fun s : Text => test s.chars = some (C.matchOpSimple tvalue s.chars ritem.op))
      (fun s => test s.chars) (fun s => C.matchOpSimple tvalue s.chars ritem.op) (itemValues ritem)

def JavaAlike (u : UnicodeTables) (context : TargetContext) (ritem : RuleItem) : Prop :=
  ItemAlike (context.text ritem) none
    (fun s => Java.opTest u (context.text ritem) s ritem.op) ritem

/-- An integer that does not parse ends the loop of the Go matcher with false. -/
def GoAlike (u : UnicodeTables) (context : TargetContext) (ritem : RuleItem) : Prop :=
  ItemAlike (context.text ritem) (some false)
    (fun s => goOpTest u (context.text ritem) s ritem.op) ritem

/-- The items of the rule are read alike up to the first one that decides it, or the first
difference is hidden. Of a rule that the C matcher does not apply, the Java and Go matchers, which
leave that test to their callers, must find that it does not match. -/
def RuleAlike (u : UnicodeTables) (context : TargetContext) (rule : Rule) : Prop :=
  if rule.isEnable = true ∧ context.isMyProto = true then
    LoopsAlike rule.isAnd none (JavaAlike u context) (Java.doMatch u context)
        (C.doMatchItem context) rule.items ∧
      LoopsAlike rule.isAnd none (GoAlike u context)
        (fun ritem => some (Go.doMatch u context ritem)) (C.doMatchItem context) rule.items
  else
    Rejected rule.isAnd (Java.doMatch u context) rule.items ∧
      Rejected rule.isAnd (fun ritem => some (Go.doMatch u context ritem)) rule.items

theorem valuesMatch_eq_loop (ritem : RuleItem) : valuesMatch tvalue ritem =
    matchLoop ritem.isAnd (fun s : Text => C.matchOpSimple tvalue s.chars ritem.op)
      (itemValues ritem) := by
  rw [valuesMatch, itemValues]
  split
  · rfl
  · rw [matchLoop_singleton]

/-- What a matcher makes of an item, by the loop over its values. -/
def itemResult (tvalue : List Char) (stop : Option Bool) (test : List Char → Option Bool)
    (ritem : RuleItem) : Option Bool :=
  if tvalue = [] ∨ ritem.value.chars = [] then some ritem.isnot
  else
    ((matchLoopThrowing ritem.isAnd (fun s : Text => test s.chars) (itemValues ritem)).or stop).map
      fun res => if ritem.isnot then !res else res

theorem java_doMatch_eq (context : TargetContext) (ritem : RuleItem) :
    Java.doMatch u context ritem = itemResult (context.text ritem) none
      (fun s => Java.opTest u (context.text ritem) s ritem.op) ritem := by
  rw [Java.doMatch, Java.opMatch, itemResult, java_opAction_eq, Option.or_none]
  by_cases hempty : context.text ritem = [] ∨ ritem.value.chars = []
  · rw [if_pos hempty, if_pos hempty]
    cases ritem.isnot <;> rfl
  · rw [if_neg hempty, if_neg hempty]
    cases matchLoopThrowing ritem.isAnd _ _ <;> rfl

theorem go_doMatch_eq (context : TargetContext) (ritem : RuleItem) :
    some (Go.doMatch u context ritem) = itemResult (context.text ritem) (some false)
      (fun s => goOpTest u (context.text ritem) s ritem.op) ritem := by
  rw [Go.doMatch, Go.opMatch, itemResult, go_opAction_eq, Option.or_some]
  by_cases hempty : context.text ritem = [] ∨ ritem.value.chars = []
  · rw [if_pos hempty, if_pos hempty]
    cases ritem.isnot <;> rfl
  · rw [if_neg hempty, if_neg hempty]
    rfl

theorem itemAlike_iff {context : TargetContext} {stop : Option Bool}
    {test : List Char → Option Bool} {ritem : RuleItem} :
    ItemAlike (context.text ritem) stop test ritem ↔
      itemResult (context.text ritem) stop test ritem = some (C.doMatchItem context ritem) := by
  rw [ItemAlike, itemResult]
  by_cases hempty : context.text ritem = [] ∨ ritem.value.chars = []
  · have hC : C.doMatchItem context ritem = false := by
      simp [C.doMatchItem, hempty.symm]
    rw [if_pos hempty, if_pos hempty, hC, Option.some.injEq]
  rw [if_neg hempty, if_neg hempty]
  obtain ⟨htarget, hvalue⟩ := not_or.1 hempty
  by_cases hvalues : itemValues ritem = []
  · have harray : ritem.isArray = true ∧ ritem.arrValues = [] := by
      rw [itemValues] at hvalues
      split at hvalues
      · exact ⟨‹_›, hvalues⟩
      · cases hvalues
    have hC : C.doMatchItem context ritem = false := by
      simp [C.doMatchItem, htarget, hvalue, harray.1, harray.2]
    rw [if_pos hvalues, hC, hvalues]
    cases ritem.isAnd <;> cases ritem.isnot <;> simp [matchLoopThrowing]
  · rw [if_neg hvalues, doMatchItem_eq htarget hvalue (itemValues_ne_nil.1 hvalues),
      valuesMatch_eq_loop, ← loopsAlike_iff fun _ _ => Iff.rfl]
    -- the negation is the same on both sides
    cases (matchLoopThrowing ritem.isAnd _ _).or stop with
    | none => simp
    | some res => cases ritem.isnot <;> simp

theorem javaAlike_iff {context : TargetContext} {ritem : RuleItem} :
    JavaAlike u context ritem ↔
      Java.doMatch u context ritem = some (C.doMatchItem context ritem) := by
  rw [JavaAlike, itemAlike_iff, java_doMatch_eq]

theorem goAlike_iff {context : TargetContext} {ritem : RuleItem} :
    GoAlike u context ritem ↔
      some (Go.doMatch u context ritem) = some (C.doMatchItem context ritem) := by
  rw [GoAlike, itemAlike_iff, go_doMatch_eq]

theorem agree_iff_ruleAlike (context : TargetContext) (rule : Rule) :
    Agree u context rule ↔ RuleAlike u context rule := by
  by_cases hvalid : rule.isEnable = true ∧ context.isMyProto = true
  · have hC : C.doMatchRule context rule =
        matchLoop rule.isAnd (C.doMatchItem context) rule.items := by
      simp [C.doMatchRule, C.isValidRule, hvalid]
    rw [Agree, RuleAlike, if_pos hvalid, hC, Java.isMatch, Go.isMatch,
      ← loopsAlike_iff fun _ _ => javaAlike_iff, ← loopsAlike_iff fun _ _ => goAlike_iff,
      Option.or_none, Option.or_none, matchLoopThrowing_some, Option.some.injEq]
  · have hC : C.doMatchRule context rule = false := by
      simp [C.doMatchRule, C.isValidRule, hvalid]
    rw [Agree, RuleAlike, if_neg hvalid, hC, Java.isMatch, Go.isMatch, ← rejected_iff,
      ← rejected_iff, matchLoopThrowing_some, Option.some.injEq]

theorem valueAgree_iff {s : List Char} {op : Op} (htarget : tvalue ≠ [])
    (hascii : op ∈ [Op.lt, .gt, .le, .ge] →
      (∀ c ∈ tvalue, c.toNat < 128) ∧ ∀ c ∈ s, c.toNat < 128) :
    ValueAgree u tvalue s op ↔ ValueSafe u tvalue s op := by
  refine ⟨fun h => ?_, fun h => ⟨h.java htarget, h.go htarget⟩⟩
  have hplain {compare : ℤ → ℤ → Bool} {b : Bool} (hop : op ∈ [Op.lt, .gt, .le, .ge])
      (hjava : Java.compareInt u compare tvalue s = some b) : PlainInt tvalue ∧ PlainInt s :=
    plainInt_of_compareInt u (hascii hop).1 (hascii hop).2 hjava
  obtain ⟨hjava, hgo⟩ := h
  cases op with
  | contains =>
    rintro rfl
    simp [Java.opTest, matchOpSimple_nil] at hjava
  | startsWith =>
    rintro rfl
    simp [Java.opTest, matchOpSimple_nil] at hjava
  | endsWith =>
    rintro rfl
    simp [Java.opTest, matchOpSimple_nil] at hjava
  | eq =>
    intro hfold
    rw [goOpTest, Option.some.injEq, hfold, C.matchOpSimple, ruleOpEq_eq htarget] at hgo
    exact beq_iff_eq.1 hgo.symm
  | lt => exact hplain (by simp) hjava
  | gt => exact hplain (by simp) hjava
  | le => exact hplain (by simp) hjava
  | ge => exact hplain (by simp) hjava

theorem ItemSafe.alike {context : TargetContext} {ritem : RuleItem}
    (h : ItemSafe u (context.text ritem) ritem) :
    JavaAlike u context ritem ∧ GoAlike u context ritem := by
  rw [JavaAlike, GoAlike, ItemAlike, ItemAlike]
  unfold ItemSafe at h
  split_ifs at h ⊢ with hempty hvalues
  · exact ⟨h, h⟩
  · exact ⟨h, h⟩
  · obtain ⟨htarget, -⟩ := not_or.1 hempty
    have hholds := fun s : Text => matchOpSimple_iff htarget s.chars ritem.op
    exact ⟨h.alike (fun s hs => hs.java htarget) hholds, h.alike (fun s hs => hs.go htarget) hholds⟩

theorem RuleSafe.alike {context : TargetContext} {rule : Rule} (h : RuleSafe u context rule) :
    RuleAlike u context rule := by
  rw [RuleAlike, if_pos ⟨h.isEnable, h.isMyProto⟩]
  have hholds := doMatchItem_iff context
  exact ⟨h.items.alike (fun ritem hitem => hitem.alike.1) hholds,
    h.items.alike (fun ritem hitem => hitem.alike.2) hholds⟩

def AsciiCompare (context : TargetContext) (ritem : RuleItem) : Prop :=
  ritem.op ∈ [Op.lt, .gt, .le, .ge] → (∀ c ∈ context.text ritem, c.toNat < 128) ∧
    ∀ s ∈ itemValues ritem, ∀ c ∈ s.chars, c.toNat < 128

/-- The three matchers agree on a rule exactly when it is read alike. Every safe rule is, and on
ASCII texts the operators give the same on a value exactly when it is safe. -/
theorem agree_iff (u : UnicodeTables) (context : TargetContext) (rule : Rule) :
    (Agree u context rule ↔ RuleAlike u context rule) ∧
      (RuleSafe u context rule → RuleAlike u context rule) ∧
      ∀ ritem ∈ rule.items, AsciiCompare context ritem → context.text ritem ≠ [] →
        ∀ s ∈ itemValues ritem, ValueAgree u (context.text ritem) s.chars ritem.op ↔
          ValueSafe u (context.text ritem) s.chars ritem.op := by
  refine ⟨agree_iff_ruleAlike context rule, RuleSafe.alike, ?_⟩
  intro ritem _ hascii htarget s hs
  exact valueAgree_iff htarget fun hop => ⟨(hascii hop).1, (hascii hop).2 s hs⟩

def asciiTables : UnicodeTables where
  digit := asciiDigit
  digit_ascii _ _ := rfl
  sameFold c d := c.toLower == d.toLower
  sameFold_refl _ := by simp
  sameFold_ascii _ _ _ _ := rfl

/-- A target with the text "200" in its status field 7 and no other text. -/
def statusContext : TargetContext where
  target target _ := if target.target = 7 then ⟨['2', '0', '0'], by decide⟩ else ⟨[], by decide⟩
  isMyProto := true

def statusItem : RuleItem :=
  ⟨⟨7, 0, 0⟩, .lt, ⟨['4', '0', '0'], by decide⟩, [], false, false, false, true⟩

/-- The host does not contain "x"; field 8 is empty in the target. -/
def negatedItem : RuleItem :=
  ⟨⟨8, 0, 0⟩, .contains, ⟨['x'], by decide⟩, [], false, false, false, true⟩

theorem negatedItem_not_alike : ¬ JavaAlike asciiTables statusContext negatedItem ∧
    ¬ GoAlike asciiTables statusContext negatedItem := by
  simp [JavaAlike, GoAlike, ItemAlike, negatedItem, statusContext, TargetContext.text]

/-- The item that fails decides the rule before the negated item is read, or hides what the matchers
make of it; without it they differ. -/
theorem statusRule_agree :
    Agree asciiTables statusContext ⟨true, true, [statusItem, negatedItem]⟩ ∧
      Agree asciiTables statusContext ⟨true, true, [negatedItem, statusItem]⟩ ∧
      ¬ Agree asciiTables statusContext ⟨true, true, [negatedItem]⟩ := by
  have hplain : PlainInt ['2', '0', '0'] ∧ PlainInt ['4', '0', '0'] := ⟨by decide, by decide⟩
  have hstatus : C.doMatchItem statusContext statusItem = false := by decide
  obtain ⟨hjava, hgo⟩ := negatedItem_not_alike
  refine ⟨?_, ?_, fun h => ?_⟩
  · obtain ⟨hiff, hsafe, -⟩ := agree_iff asciiTables statusContext
      ⟨true, true, [statusItem, negatedItem]⟩
    refine hiff.2 (hsafe ⟨rfl, rfl, ?_, fun hdecides => ?_⟩)
    · simpa [ItemSafe, ValuesSafe, SafeUpTo, itemValues, statusItem, statusContext,
        TargetContext.text, ValueSafe] using hplain
    · have hno : ¬ ItemHolds (statusContext.text statusItem) statusItem := by
        rw [← doMatchItem_iff, hstatus]
        exact Bool.false_ne_true
      exact absurd (hdecides.2 rfl) hno
  · rw [(agree_iff asciiTables statusContext ⟨true, true, [negatedItem, statusItem]⟩).1, RuleAlike,
      if_pos ⟨rfl, rfl⟩]
    exact ⟨.inr ⟨hjava, .inl ⟨by decide, .inl (by decide)⟩⟩,
      .inr ⟨hgo, .inl ⟨by decide, .inl (by decide)⟩⟩⟩
  · rw [(agree_iff asciiTables statusContext ⟨true, true, [negatedItem]⟩).1, RuleAlike,
      if_pos ⟨rfl, rfl⟩] at h
    have hdoMatch : Java.doMatch asciiTables statusContext negatedItem = some true := by decide
    simpa [LoopsAlike, DifferenceHidden, Decides, hjava, hdoMatch] using h.1

/-- On an empty text the negation is dropped by the C matcher only. -/
theorem negatedRule_not_agree :
    C.doMatchRule statusContext ⟨true, true, [negatedItem]⟩ = false ∧
      Java.isMatch asciiTables statusContext ⟨true, true, [negatedItem]⟩ = some true ∧
      Go.isMatch asciiTables statusContext ⟨true, true, [negatedItem]⟩ = true ∧
      ¬ Agree asciiTables statusContext ⟨true, true, [negatedItem]⟩ := by
  refine ⟨by decide, by decide, by decide, fun h => ?_⟩
  exact absurd h.2 (by decide)

end CloudHands.RuleMatch
