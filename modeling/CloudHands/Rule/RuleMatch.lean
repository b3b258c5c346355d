import CloudHands.Lib.Decimal

/-!
# The three rule matchers

`rule/ch_rule_match.c`, `RuleMatch.java` and `ruleMatch.go` with the operators they all
support. A text is a sequence of characters without the terminating null of a C string;
the bytes the C and Go matchers compare are its UTF-8 encoding, in which a text begins,
ends or occurs exactly where its characters do. The Java matcher may throw a
`NumberFormatException`, which is the result `none`.
-/

namespace CloudHands.RuleMatch

open Lib

structure Text where
  chars : List Char
  noNul : '\x00' ∉ chars
deriving DecidableEq

/-- The tables behind `Character.digit` in base 10 and `unicode.SimpleFold`. -/
structure UnicodeTables where
  digit : Char → Option ℕ
  digit_ascii : ∀ c : Char, c.toNat < 128 → digit c = asciiDigit c
  sameFold : Char → Char → Bool
  sameFold_refl : ∀ c, sameFold c c = true
  sameFold_ascii : ∀ c d : Char, c.toNat < 128 → d.toNat < 128 →
    sameFold c d = (c.toLower == d.toLower)

inductive Op
  | contains
  | startsWith
  | endsWith
  | eq
  | lt
  | gt
  | le
  | ge
deriving DecidableEq

structure RuleTarget where
  target : ℕ
  offset : ℕ
  len : ℕ

structure RuleItem where
  target : RuleTarget
  op : Op
  value : Text
  arrValues : List Text
  isAnd : Bool
  isArray : Bool
  isHex : Bool
  isnot : Bool

structure Rule where
  isEnable : Bool
  isAnd : Bool
  items : List RuleItem

/-- What a match reads of its target: the text of a field, and whether the rule's
protocol is the target's. -/
structure TargetContext where
  target : RuleTarget → Bool → Text
  isMyProto : Bool

def TargetContext.text (context : TargetContext) (ritem : RuleItem) : List Char :=
  (context.target ritem.target ritem.isHex).chars

/-- The loops over value arrays and rule items: `and` stops at the first failure, `or` at
the first success. -/
def matchLoop {α : Type} (isAnd : Bool) (test : α → Bool) : List α → Bool
  | [] => isAnd
  | a :: as =>
    if test a then
      if !isAnd then true else matchLoop isAnd test as
    else if isAnd then false else matchLoop isAnd test as

def matchLoopThrowing {α : Type} (isAnd : Bool) (test : α → Option Bool) : List α → Option Bool
  | [] => some isAnd
  | a :: as =>
    match test a with
    | none => none
    | some res =>
      if res then
        if !isAnd then some true else matchLoopThrowing isAnd test as
      else if isAnd then some false else matchLoopThrowing isAnd test as

namespace C

/-- The scan of `ch_rule_op_contains` over the start positions `i`. -/
def ruleOpContains (target value : List Char) : Bool :=
  if value.length = 0 ∨ target.length = 0 then false
  else if target.length < value.length then false
  else
    (List.range (target.length - value.length + 1)).any fun i =>
      target[i]? == value[0]? &&
        (value.length == 1 || (target.drop (i + 1)).take (value.length - 1) == value.drop 1)

def ruleOpEndsWith (target value : List Char) : Bool :=
  if value.length = 0 ∨ target.length = 0 then false
  else if target.length < value.length then false
  else target.drop (target.length - value.length) == value

def ruleOpStartsWith (target value : List Char) : Bool :=
  if value.length = 0 ∨ target.length = 0 then false
  else if target.length < value.length then false
  else target.take value.length == value

def ruleOpEq (target value : List Char) : Bool :=
  if value.length = 0 ∨ target.length = 0 then false
  else if value.length ≠ target.length then false
  else target.take value.length == value

/-- The family `ch_rule_op_lt`, `gt`, `le` and `ge`, by the comparison. -/
def ruleOpCompare (compare : ℤ → ℤ → Bool) (target value : List Char) : Bool :=
  if value.length = 0 ∨ target.length = 0 then false
  else compare (strtol target) (strtol value)

def ruleOpLt : List Char → List Char → Bool := ruleOpCompare (· < ·)
def ruleOpGt : List Char → List Char → Bool := ruleOpCompare (· > ·)
def ruleOpLe : List Char → List Char → Bool := ruleOpCompare (· ≤ ·)
def ruleOpGe : List Char → List Char → Bool := ruleOpCompare (· ≥ ·)

def matchOpSimple (tvalue mvalue : List Char) : Op → Bool
  | .contains => ruleOpContains tvalue mvalue
  | .startsWith => ruleOpStartsWith tvalue mvalue
  | .endsWith => ruleOpEndsWith tvalue mvalue
  | .eq => ruleOpEq tvalue mvalue
  | .lt => ruleOpLt tvalue mvalue
  | .gt => ruleOpGt tvalue mvalue
  | .le => ruleOpLe tvalue mvalue
  | .ge => ruleOpGe tvalue mvalue

def matchOpArrays (arr : List Text) (tvalue : List Char) (isAnd : Bool) (op : Op) : Bool :=
  if arr.length = 0 then false
  else matchLoop isAnd (fun value : Text => matchOpSimple tvalue value.chars op) arr

def doMatchItem (context : TargetContext) (ritem : RuleItem) : Bool :=
  let targetValue := context.text ritem
  if ritem.value.chars = [] ∨ targetValue = [] then false
  else if ritem.isArray && ritem.arrValues.length = 0 then false
  else
    let res :=
      if ritem.isArray then matchOpArrays ritem.arrValues targetValue ritem.isAnd ritem.op
      else matchOpSimple targetValue ritem.value.chars ritem.op
    if ritem.isnot then !res else res

def isValidRule (context : TargetContext) (rule : Rule) : Bool :=
  rule.isEnable && context.isMyProto

def doMatchRule (context : TargetContext) (rule : Rule) : Bool :=
  if !isValidRule context rule then false
  else matchLoop rule.isAnd (doMatchItem context) rule.items

end C

namespace Java

variable (u : UnicodeTables)

/-- `Integer.parseInt`. -/
def parseInt (s : List Char) : Option ℤ := parseSigned u.digit (-2 ^ 31) (2 ^ 31 - 1) s

def compareInt (compare : ℤ → ℤ → Bool) (tvalue s : List Char) : Option Bool :=
  match parseInt u tvalue with
  | none => none
  | some t =>
    match parseInt u s with
    | none => none
    | some v => some (compare t v)

/-- The test an action of `opMaps` makes on one value. -/
def opTest (tvalue s : List Char) : Op → Option Bool
  | .contains => some (decide (s <:+: tvalue))
  | .startsWith => some (decide (s <+: tvalue))
  | .endsWith => some (decide (s <:+ tvalue))
  | .eq => some (tvalue == s)
  | .lt => compareInt u (· < ·) tvalue s
  | .gt => compareInt u (· > ·) tvalue s
  | .le => compareInt u (· ≤ ·) tvalue s
  | .ge => compareInt u (· ≥ ·) tvalue s

def opAction (tvalue : List Char) (ruleItem : RuleItem) : Option Bool :=
  if ruleItem.isArray then
    matchLoopThrowing ruleItem.isAnd (fun s : Text => opTest u tvalue s.chars ruleItem.op)
      ruleItem.arrValues
  else opTest u tvalue ruleItem.value.chars ruleItem.op

def opMatch (tvalue : List Char) (ruleItem : RuleItem) : Option Bool :=
  if tvalue = [] ∨ ruleItem.value.chars = [] then some false else opAction u tvalue ruleItem

def doMatch (context : TargetContext) (ruleItem : RuleItem) : Option Bool :=
  match opMatch u (context.text ruleItem) ruleItem with
  | none => none
  | some res => some (if ruleItem.isnot then !res else res)

def isMatch (context : TargetContext) (rule : Rule) : Option Bool :=
  matchLoopThrowing rule.isAnd (doMatch u context) rule.items

end Java

namespace Go

variable (u : UnicodeTables)

/-- `strings.EqualFold`. -/
def equalFold : List Char → List Char → Bool
  | [], [] => true
  | c :: cs, d :: ds => u.sameFold c d && equalFold cs ds
  | _, _ => false

/-- `strconv.ParseInt` in base 10 with 64 bits. -/
def parseInt (s : List Char) : Option ℤ := parseSigned asciiDigit (-2 ^ 63) (2 ^ 63 - 1) s

/-- The actions of `OPActionMap` on texts, by their test. -/
def textAction (test : List Char → List Char → Bool) (tvalue : List Char) (ri : RuleItem) : Bool :=
  if ri.isArray then matchLoop ri.isAnd (fun s : Text => test tvalue s.chars) ri.arrValues
  else test tvalue ri.value.chars

def parseBoth (tvalue s : List Char) : Option (ℤ × ℤ) :=
  match parseInt tvalue with
  | none => none
  | some tint =>
    match parseInt s with
    | none => none
    | some sint => some (tint, sint)

def compareLoop (compare : ℤ → ℤ → Bool) (tvalue : List Char) (isAnd : Bool) : List Text → Bool
  | [] => isAnd
  | s :: ss =>
    match parseBoth tvalue s.chars with
    | none => false
    | some (tint, sint) =>
      if compare tint sint then
        if !isAnd then true else compareLoop compare tvalue isAnd ss
      else if isAnd then false else compareLoop compare tvalue isAnd ss

/-- The actions of `OPActionMap` on integers, by their comparison. -/
def compareAction (compare : ℤ → ℤ → Bool) (tvalue : List Char) (ri : RuleItem) : Bool :=
  if ri.isArray then compareLoop compare tvalue ri.isAnd ri.arrValues
  else
    match parseBoth tvalue ri.value.chars with
    | none => false
    | some (tint, sint) => compare tint sint

def opAction (tvalue : List Char) (ri : RuleItem) : Bool :=
  match ri.op with
  | .contains => textAction (fun t s => decide (s <:+: t)) tvalue ri
  | .startsWith => textAction (fun t s => decide (s <+: t)) tvalue ri
  | .endsWith => textAction (fun t s => decide (s <:+ t)) tvalue ri
  | .eq => textAction (equalFold u) tvalue ri
  | .lt => compareAction (· < ·) tvalue ri
  | .gt => compareAction (· > ·) tvalue ri
  | .le => compareAction (· ≤ ·) tvalue ri
  | .ge => compareAction (· ≥ ·) tvalue ri

def opMatch (tvalue : List Char) (ri : RuleItem) : Bool :=
  if tvalue = [] ∨ ri.value.chars = [] then false else opAction u tvalue ri

def doMatch (context : TargetContext) (ri : RuleItem) : Bool :=
  let res := opMatch u (context.text ri) ri
  if ri.isnot then !res else res

def isMatch (context : TargetContext) (rule : Rule) : Bool :=
  matchLoop rule.isAnd (doMatch u context) rule.items

end Go

end CloudHands.RuleMatch
