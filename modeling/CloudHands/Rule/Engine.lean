import CloudHands.Rule.RuleMatch
import Mathlib.Tactic

/-!
# Matching all rule pools of an engine

`rule/ch_rule_engine_context.c` with `ch_rule_match` and `ch_rule_nmatch`. A pool is matched
by running over its rules, an engine by running over its pools. `ch_rule_nmatch` starts with
an empty result, also when it is called for the second pool of an engine, so what is left in
the end are the matches of the pool that was visited last.
-/

namespace CloudHands.RuleEngine

open CloudHands.RuleMatch (RuleTarget Text TargetContext)

/-- A rule of a pool: what the matcher reads, with its protocol and its number. -/
structure Rule extends RuleMatch.Rule where
  id : ℕ
  proto : ℤ

def protoUnk : ℤ := -1

/-- `ch_rule_target_context_t`, the callbacks of a target. -/
structure Target where
  isMyProto : ℤ → Bool
  target : RuleTarget → Bool → Text

structure RulePool where
  rules : List Rule
  matchThenStop : Bool

structure MatchContext where
  matchRules : List Rule
  matchN : ℕ

def doMatchRule (tcontext : Target) (rule : Rule) : Bool :=
  RuleMatch.C.doMatchRule
    ⟨tcontext.target, rule.proto != protoUnk && tcontext.isMyProto rule.proto⟩ rule.toRule

/-- The loop of `ch_rule_match`. -/
def matchRules (tcontext : Target) : List Rule → Bool
  | [] => false
  | rule :: rules => if doMatchRule tcontext rule then true else matchRules tcontext rules

def ruleMatch (tcontext : Target) (rpool : RulePool) : Bool := matchRules tcontext rpool.rules

/-- The loop of `ch_rule_nmatch`: what it returns and what it leaves in the context. -/
def nmatchRules (tcontext : Target) (stop : Bool) : List Rule → MatchContext → Bool × MatchContext
  | [], mcontext => (decide (0 < mcontext.matchN), mcontext)
  | rule :: rules, mcontext =>
    if doMatchRule tcontext rule then
      let mcontext := ⟨mcontext.matchRules ++ [rule], mcontext.matchN + 1⟩
      if stop then (true, mcontext) else nmatchRules tcontext stop rules mcontext
    else nmatchRules tcontext stop rules mcontext

/-- `ch_rule_nmatch`. What the context held is dropped. -/
def ruleNmatch (tcontext : Target) (rpool : RulePool) (_ : MatchContext) : Bool × MatchContext :=
  nmatchRules tcontext rpool.matchThenStop rpool.rules ⟨[], 0⟩

structure RuleGroup where
  enable : Bool
  engine : List Char
  name : List Char

/-- An engine gives its own `matchThenStop` to each of its pools. -/
structure RuleEngineContext where
  rpools : List RulePool
  matchThenStop : Bool
  same : ∀ rpool ∈ rpools, rpool.matchThenStop = matchThenStop

def isMyRuleGroup (engine : List Char) (ruleGroup : RuleGroup) : Bool :=
  ruleGroup.enable && engine.map Char.toLower == ruleGroup.engine.map Char.toLower

/-- `_load_rule_pools`. The rules of a group come from its file, which may not be readable. -/
def loadRulePools (engine : List Char) (matchThenStop : Bool)
    (rulesOf : RuleGroup → Option (List Rule)) (groups : List RuleGroup) : RuleEngineContext where
  rpools := ((groups.filter (isMyRuleGroup engine)).filterMap rulesOf).map fun rules =>
    ⟨rules, matchThenStop⟩
  matchThenStop := matchThenStop
  same := by
    intro rpool hrpool
    obtain ⟨rules, -, rfl⟩ := List.mem_map.1 hrpool
    rfl

/-- The loop of `ch_rule_engine_context_run_match`. -/
def matchPools (tcontext : Target) : List RulePool → Bool
  | [] => false
  | rpool :: rpools => if ruleMatch tcontext rpool then true else matchPools tcontext rpools

/-- `ch_rule_engine_context_run_match`. -/
def runMatch (recontext : RuleEngineContext) (tcontext : Target) : Bool :=
  matchPools tcontext recontext.rpools

/-- The loop of `ch_rule_engine_context_run_nmatch` with its `count`. -/
def nmatchPools (tcontext : Target) (stop : Bool) :
    List RulePool → ℕ → MatchContext → Bool × MatchContext
  | [], count, mcontext => (decide (0 < count), mcontext)
  | rpool :: rpools, count, mcontext =>
    let matched := ruleNmatch tcontext rpool mcontext
    if matched.1 then
      if stop then (true, matched.2) else nmatchPools tcontext stop rpools (count + 1) matched.2
    else nmatchPools tcontext stop rpools count matched.2

/-- `ch_rule_engine_context_run_nmatch`. -/
def runNmatch (recontext : RuleEngineContext) (mcontext : MatchContext) (tcontext : Target) :
    Bool × MatchContext :=
  nmatchPools tcontext recontext.matchThenStop recontext.rpools 0 mcontext

variable {tcontext : Target}

def matching (tcontext : Target) (rpool : RulePool) : List Rule :=
  rpool.rules.filter (doMatchRule tcontext)

def allMatching (recontext : RuleEngineContext) (tcontext : Target) : List Rule :=
  recontext.rpools.flatMap (matching tcontext)

theorem matchRules_eq (rules : List Rule) :
    matchRules tcontext rules = rules.any (doMatchRule tcontext) := by
  induction rules with
  | nil => rfl
  | cons rule rules ih =>
    rw [matchRules, List.any_cons, ih]
    cases doMatchRule tcontext rule <;> rfl

theorem ruleMatch_eq (rpool : RulePool) :
    ruleMatch tcontext rpool = decide (matching tcontext rpool ≠ []) := by
  rw [ruleMatch, matchRules_eq, Bool.eq_iff_iff, List.any_eq_true, decide_eq_true_iff, matching,
    ne_eq, List.filter_eq_nil_iff]
  push Not
  rfl

theorem nmatchRules_all (rules : List Rule) (mcontext : MatchContext) :
    nmatchRules tcontext false rules mcontext =
      (decide (0 < mcontext.matchN + (rules.filter (doMatchRule tcontext)).length),
        ⟨mcontext.matchRules ++ rules.filter (doMatchRule tcontext),
          mcontext.matchN + (rules.filter (doMatchRule tcontext)).length⟩) := by
  induction rules generalizing mcontext with
  | nil => simp [nmatchRules]
  | cons rule rules ih =>
    rw [nmatchRules, List.filter_cons]
    split
    · rw [if_neg Bool.false_ne_true, ih, List.length_cons, List.append_assoc,
        List.singleton_append, Nat.add_assoc, Nat.add_comm 1]
    · exact ih mcontext

theorem nmatchRules_stop (rules : List Rule) :
    nmatchRules tcontext true rules ⟨[], 0⟩ =
      match rules.find? (doMatchRule tcontext) with
      | some rule => (true, ⟨[rule], 1⟩)
      | none => (false, ⟨[], 0⟩) := by
  induction rules with
  | nil => rfl
  | cons rule rules ih =>
    rw [nmatchRules, List.find?_cons]
    cases doMatchRule tcontext rule with
    | true => rfl
    | false => exact ih

theorem ruleNmatch_all {rpool : RulePool} (hstop : rpool.matchThenStop = false)
    (mcontext : MatchContext) :
    ruleNmatch tcontext rpool mcontext =
      (ruleMatch tcontext rpool, ⟨matching tcontext rpool, (matching tcontext rpool).length⟩) := by
  rw [ruleNmatch, hstop, nmatchRules_all, ruleMatch_eq, matching]
  simp [List.length_pos_iff]

theorem ruleNmatch_fst (rpool : RulePool) (mcontext : MatchContext) :
    (ruleNmatch tcontext rpool mcontext).1 = ruleMatch tcontext rpool := by
  cases hstop : rpool.matchThenStop with
  | false => rw [ruleNmatch_all hstop]
  | true =>
    rw [ruleNmatch, hstop, nmatchRules_stop, ruleMatch, matchRules_eq, ← List.isSome_find?]
    cases rpool.rules.find? (doMatchRule tcontext) <;> rfl

theorem nmatchPools_fst (stop : Bool) (rpools : List RulePool) (count : ℕ)
    (mcontext : MatchContext) :
    (nmatchPools tcontext stop rpools count mcontext).1 =
      (decide (0 < count) || matchPools tcontext rpools) := by
  induction rpools generalizing count mcontext with
  | nil => rw [nmatchPools, matchPools, Bool.or_false]
  | cons rpool rpools ih =>
    simp only [nmatchPools, matchPools, ruleNmatch_fst]
    cases ruleMatch tcontext rpool with
    | true => cases stop <;> simp [ih]
    | false => simpa using ih count _

theorem runNmatch_fst (recontext : RuleEngineContext) (mcontext : MatchContext) :
    (runNmatch recontext mcontext tcontext).1 = runMatch recontext tcontext := by
  rw [runNmatch, nmatchPools_fst, runMatch]
  rfl

def lastMatching (tcontext : Target) (mcontext : MatchContext) : List RulePool → MatchContext
  | [] => mcontext
  | rpool :: rpools =>
    lastMatching tcontext ⟨matching tcontext rpool, (matching tcontext rpool).length⟩ rpools

theorem nmatchPools_snd {rpools : List RulePool}
    (hstop : ∀ rpool ∈ rpools, rpool.matchThenStop = false) (count : ℕ) (mcontext : MatchContext) :
    (nmatchPools tcontext false rpools count mcontext).2 =
      lastMatching tcontext mcontext rpools := by
  induction rpools generalizing count mcontext with
  | nil => rfl
  | cons rpool rpools ih =>
    obtain ⟨hrpool, hrpools⟩ := List.forall_mem_cons.1 hstop
    simp only [nmatchPools, ruleNmatch_all hrpool, lastMatching, Bool.false_eq_true, if_false]
    split
    · exact ih hrpools _ _
    · exact ih hrpools _ _

theorem lastMatching_append (mcontext : MatchContext) (rpools : List RulePool) (rpool : RulePool) :
    lastMatching tcontext mcontext (rpools ++ [rpool]) =
      ⟨matching tcontext rpool, (matching tcontext rpool).length⟩ := by
  induction rpools generalizing mcontext with
  | nil => rfl
  | cons _ rpools ih => exact ih _

/-- All matches are kept when none of them is in a pool before the last one. -/
def OnlyLastMatches (tcontext : Target) (rpools : List RulePool) : Prop :=
  ∀ rpool ∈ rpools.dropLast, ∀ rule ∈ rpool.rules, doMatchRule tcontext rule = false

instance (rpools : List RulePool) : Decidable (OnlyLastMatches tcontext rpools) :=
  inferInstanceAs (Decidable (∀ rpool ∈ rpools.dropLast, ∀ rule ∈ rpool.rules,
    doMatchRule tcontext rule = false))

theorem onlyLastMatches_append (rpools : List RulePool) (rpool : RulePool) :
    OnlyLastMatches tcontext (rpools ++ [rpool]) ↔ rpools.flatMap (matching tcontext) = [] := by
  rw [OnlyLastMatches, List.dropLast_concat, List.flatMap_eq_nil_iff]
  refine forall₂_congr fun other _ => ?_
  rw [matching, List.filter_eq_nil_iff]
  exact forall₂_congr fun rule _ => Bool.eq_false_iff

theorem lastMatching_eq_iff (mcontext : MatchContext) (rpools : List RulePool) :
    ((lastMatching tcontext mcontext rpools).matchRules = rpools.flatMap (matching tcontext) ∧
      (lastMatching tcontext mcontext rpools).matchN =
        (lastMatching tcontext mcontext rpools).matchRules.length) ↔
      (rpools = [] → mcontext.matchRules = [] ∧ mcontext.matchN = 0) ∧
        OnlyLastMatches tcontext rpools := by
  induction rpools using List.reverseRecOn with
  | nil =>
    simp only [lastMatching, List.flatMap_nil, forall_const, OnlyLastMatches, List.dropLast_nil]
    constructor
    · rintro ⟨hrules, hcount⟩
      exact ⟨⟨hrules, by rw [hcount, hrules, List.length_nil]⟩, by simp⟩
    · rintro ⟨⟨hrules, hcount⟩, -⟩
      exact ⟨hrules, by rw [hcount, hrules, List.length_nil]⟩
  | append_singleton rpools rpool _ =>
    rw [lastMatching_append, onlyLastMatches_append, List.flatMap_append, List.flatMap_singleton]
    constructor
    · rintro ⟨hrules, -⟩
      exact ⟨by simp, List.self_eq_append_left.1 hrules⟩
    · rintro ⟨-, hearlier⟩
      exact ⟨by rw [hearlier, List.nil_append], rfl⟩

/-- What a multi-match promises: all matching rules, their number, and a report that agrees
with the single match. -/
structure Complete (recontext : RuleEngineContext) (tcontext : Target) (res : Bool × MatchContext) :
    Prop where
  matchRules : res.2.matchRules = allMatching recontext tcontext
  matchN : res.2.matchN = res.2.matchRules.length
  reports : res.1 = runMatch recontext tcontext

theorem runNmatch_complete_iff (recontext : RuleEngineContext) (mcontext : MatchContext)
    (tcontext : Target) (hstop : recontext.matchThenStop = false) :
    Complete recontext tcontext (runNmatch recontext mcontext tcontext) ↔
      (recontext.rpools = [] → mcontext.matchRules = [] ∧ mcontext.matchN = 0) ∧
        OnlyLastMatches tcontext recontext.rpools := by
  have hpools : ∀ rpool ∈ recontext.rpools, rpool.matchThenStop = false :=
    fun rpool hrpool => (recontext.same rpool hrpool).trans hstop
  have hsnd : (runNmatch recontext mcontext tcontext).2 =
      lastMatching tcontext mcontext recontext.rpools := by
    rw [runNmatch, hstop, nmatchPools_snd hpools]
  rw [← lastMatching_eq_iff, ← hsnd]
  constructor
  · intro h
    exact ⟨h.matchRules, h.matchN⟩
  · rintro ⟨hrules, hcount⟩
    exact ⟨hrules, hcount, runNmatch_fst recontext mcontext⟩

def oneTarget : Target := ⟨fun proto => proto == 1, fun _ _ => ⟨['a'], by decide⟩⟩

/-- A rule of protocol 1 that asks for the field 0 to be `value`. -/
def eqRule (id : ℕ) (value : Text) : Rule :=
  ⟨⟨true, true, [⟨⟨0, 0, 0⟩, .eq, value, [], false, false, false, false⟩]⟩, id, 1⟩

def enginesOf (values : List Text) : RuleEngineContext where
  rpools := values.map fun value => ⟨[eqRule 7 value], false⟩
  matchThenStop := false
  same := by
    intro rpool hrpool
    obtain ⟨value, -, rfl⟩ := List.mem_map.1 hrpool
    rfl

theorem runNmatch_last :
    (enginesOf [⟨['b'], by decide⟩, ⟨['a'], by decide⟩]).matchThenStop = false ∧
      Complete (enginesOf [⟨['b'], by decide⟩, ⟨['a'], by decide⟩]) oneTarget
        (runNmatch (enginesOf [⟨['b'], by decide⟩, ⟨['a'], by decide⟩]) ⟨[], 0⟩ oneTarget) :=
  ⟨rfl, (runNmatch_complete_iff _ ⟨[], 0⟩ oneTarget rfl).2 ⟨fun _ => ⟨rfl, rfl⟩, by decide⟩⟩

/-- A match in the first of two pools is reported and lost. -/
theorem runNmatch_lost :
    (runNmatch (enginesOf [⟨['a'], by decide⟩, ⟨['b'], by decide⟩]) ⟨[], 0⟩ oneTarget).1 = true ∧
      (runNmatch (enginesOf [⟨['a'], by decide⟩, ⟨['b'], by decide⟩]) ⟨[], 0⟩ oneTarget).2.matchN
        = 0 ∧
      ¬ Complete (enginesOf [⟨['a'], by decide⟩, ⟨['b'], by decide⟩]) oneTarget
        (runNmatch (enginesOf [⟨['a'], by decide⟩, ⟨['b'], by decide⟩]) ⟨[], 0⟩ oneTarget) := by
  refine ⟨by decide, by decide, fun h => ?_⟩
  have hlength := congrArg List.length h.matchRules
  revert hlength
  decide

end CloudHands.RuleEngine
