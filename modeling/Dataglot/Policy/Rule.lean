/-
What every enforcer of `dataglot-policy` shares (`lib.rs`): the session's
identity, whom a rule applies to, and the keys under which a rule for a table
may have been registered.
-/
import Mathlib
import Dataglot.DataFusion.Plan
import Dataglot.Library.ExceptFacts

namespace Dataglot
open DataFusion Option List

/-! ## Identity -/

/-- `OrgGroupId`: the name of an organisation's group. -/
structure OrgGroupId where
  asStr : String
  deriving DecidableEq, Repr

/-- `Identity`: whom a query runs as. -/
structure Identity where
  user : Option String
  org : Option String
  orgGroups : List String
  roles : List String
  isSuperuser : Bool
  deriving DecidableEq, Repr

namespace Identity

def anonymous : Identity := ⟨none, none, [], [], false⟩

def ofUser (name : String) : Identity := { anonymous with user := some name }

variable (id : Identity)

def withOrg (org : String) : Identity := { id with org := some org }

def withGroups (groups : List String) : Identity := { id with orgGroups := groups }

def withRoles (roles : List String) : Identity := { id with roles := roles }

def asSuperuser : Identity := { id with isSuperuser := true }

/-- Roles and the superuser flag are not looked at. -/
def isAnonymous : Bool :=
  id.user.isNone && id.org.isNone && id.orgGroups.isEmpty

end Identity

/-! ## Whom a rule applies to -/

/-- `org_rule_applies`: a rule without an org is operator-wide, one with an org is for that org. -/
def orgRuleApplies (ruleOrg : Option String) (id : Identity) : Bool :=
  ruleOrg.isNone || ruleOrg == id.org

/-- `subject_matches`: a rule without groups is for everyone. -/
def subjectMatches (ruleGroups : Option (List OrgGroupId)) (identityGroups : List String) : Bool :=
  match ruleGroups with
  | none => true
  | some groups => groups.any fun g => identityGroups.any fun ig => ig == g.asStr

@[simp] theorem orgRuleApplies_none (id) : orgRuleApplies none id = true := rfl

@[simp] theorem orgRuleApplies_some {org id} : orgRuleApplies (some org) id = true ↔ id.org = some org := by
  simp only [orgRuleApplies, isNone_some, Bool.false_or, beq_iff_eq]
  exact eq_comm

@[simp] theorem subjectMatches_none (groups) : subjectMatches none groups = true := rfl

/-! ## The keys of a table -/

/-- `match_candidates`: the keys under which a rule for `rel` may stand, most specific first. -/
def matchCandidates (rel : TableReference) : List TableReference :=
  match rel with
  | .full _ schema table => [rel, .partialRef schema table, .bare table]
  | .partialRef _ table => [rel, .bare table]
  | .bare _ => [rel]

/-! ## Registered rules

An enforcer keeps its rules in a map from a key, a table or a column of one, to the rules of every
scope that were registered under the key, in their order. -/

/-- One rule under a key with its scope, the `(org, groups, rule)` triple of the source. -/
structure ScopedRule (α : Type) where
  org : Option String
  groups : Option (List OrgGroupId)
  rule : α

namespace ScopedRule

variable {α : Type}

def sameScope (a b : ScopedRule α) : Bool := a.org == b.org && a.groups == b.groups

/-- The rule is for the session: by its org and by its groups. -/
def applies (r : ScopedRule α) (id : Identity) : Bool :=
  orgRuleApplies r.org id && subjectMatches r.groups id.orgGroups

theorem orgRuleApplies_of_applies {r : ScopedRule α} {id} (h : r.applies id) : orgRuleApplies r.org id := by
  rw [applies, Bool.and_eq_true] at h
  exact h.1

end ScopedRule

abbrev RuleMap (K α : Type) := AList fun _ : K => List (ScopedRule α)

namespace RuleMap

variable {K α : Type} [DecidableEq K]

def rulesAt (m : RuleMap K α) (key : K) : List (ScopedRule α) := (m.lookup key).getD []

/-- A rule is added behind those of its key. -/
def push (m : RuleMap K α) (rule : K × ScopedRule α) : RuleMap K α :=
  m.insert rule.1 (rulesAt m rule.1 ++ [rule.2])

/-- The loop body of the enforcers' `new`: a second rule of the same scope under a key is refused. -/
def register (m : RuleMap K α) (rule : K × ScopedRule α) : Except K (RuleMap K α) :=
  match m.lookup rule.1 with
  | some entries =>
    if entries.any fun e => e.sameScope rule.2 then .error rule.1
    else .ok (m.insert rule.1 (entries ++ [rule.2]))
  | none => .ok (m.insert rule.1 [rule.2])

def build (rules : List (K × ScopedRule α)) : Except K (RuleMap K α) := rules.foldlM register ∅

variable {m : RuleMap K α} {rule : K × ScopedRule α} {rules : List (K × ScopedRule α)}

theorem rulesAt_of_isEmpty (h : m.entries.isEmpty) (k) : rulesAt m k = [] := by
  have hn : m.lookup k = none := by
    rw [AList.lookup, isEmpty_iff.mp h, dlookup_nil]
  rw [rulesAt, hn, getD_none]

theorem rulesAt_insert (m) (key k : K) (entries : List (ScopedRule α)) :
    rulesAt (m.insert key entries) k = if k = key then entries else rulesAt m k := by
  unfold rulesAt
  split_ifs with h
  · rw [h, AList.lookup_insert, getD_some]
  · rw [AList.lookup_insert_ne h]

theorem rulesAt_foldl_push (k : K) : ∀ (rules : List (K × ScopedRule α)) m,
    rulesAt (rules.foldl push m) k = rulesAt m k ++ (rules.filter fun r => r.1 = k).map (·.2)
  | [], m => by simp
  | rule :: rules, m => by
    rw [foldl_cons, rulesAt_foldl_push k rules, push, rulesAt_insert]
    by_cases hk : rule.1 = k
    · simp [hk]
    · simp [hk, Ne.symm hk]

theorem register_ok {m'} (h : register m rule = .ok m') : m' = push m rule := by
  unfold register at h
  split at h
  next entries hl =>
    split_ifs at h
    cases h
    rw [push, rulesAt, hl, getD_some]
  next hl =>
    cases h
    rw [push, rulesAt, hl, getD_none, nil_append]

theorem foldlM_register_ok : ∀ {rules : List (K × ScopedRule α)} {m₀ m},
    rules.foldlM register m₀ = .ok m → m = rules.foldl push m₀
  | [], m₀, m, h => by
    rw [foldlM_nil, Except.pure_ok_iff] at h
    exact h.symm
  | rule :: rules, m₀, m, h => by
    rw [foldlM_cons, Except.bind_ok_iff] at h
    obtain ⟨m₁, h₁, h⟩ := h
    rw [foldl_cons, ← register_ok h₁]
    exact foldlM_register_ok h

/-- Two rules of one scope under one key. -/
def Clash (a b : K × ScopedRule α) : Prop := a.1 = b.1 ∧ a.2.sameScope b.2

theorem register_ok_iff : (∃ m', register m rule = .ok m') ↔ ∀ e ∈ rulesAt m rule.1, ¬ e.sameScope rule.2 := by
  unfold register rulesAt
  cases m.lookup rule.1 with
  | none => simp
  | some entries =>
    by_cases ha : entries.any fun e => e.sameScope rule.2
    · have hex : ∃ e ∈ entries, e.sameScope rule.2 := any_eq_true.mp ha
      simp [ha, hex]
    · have hno : ∀ e ∈ entries, ¬ e.sameScope rule.2 := fun e he hs => ha (any_eq_true.mpr ⟨e, he, hs⟩)
      simp only [ha, Bool.false_eq_true, if_false, getD_some]
      exact iff_of_true ⟨_, rfl⟩ hno

theorem mem_rulesAt_push {k : K} {e} : e ∈ rulesAt (push m rule) k ↔ e ∈ rulesAt m k ∨ (rule.1 = k ∧ rule.2 = e) := by
  have h := rulesAt_foldl_push k [rule] m
  rw [foldl_cons, foldl_nil] at h
  rw [h]
  by_cases hk : rule.1 = k
  · simp [hk, eq_comm]
  · simp [hk]

theorem foldlM_register_ok_iff : ∀ {rules : List (K × ScopedRule α)} {m₀}, (∃ m, rules.foldlM register m₀ = .ok m) ↔
      rules.Pairwise (fun a b => ¬ Clash a b) ∧ ∀ r ∈ rules, ∀ e ∈ rulesAt m₀ r.1, ¬ e.sameScope r.2
  | [], m₀ => by simp [pure, Except.pure]
  | rule :: rules, m₀ => by
    simp only [foldlM_cons, Except.exists_bind_ok_iff, pairwise_cons, forall_mem_cons]
    constructor
    · rintro ⟨m₁, h₁, hre⟩
      have hrg := register_ok_iff.mp ⟨m₁, h₁⟩
      obtain rfl := register_ok h₁
      obtain ⟨hp, hn⟩ := foldlM_register_ok_iff.mp hre
      refine ⟨⟨fun r hr hc => ?_, hp⟩, hrg, fun r hr e he => ?_⟩
      · exact hn r hr _ (mem_rulesAt_push.mpr (.inr ⟨hc.1, rfl⟩)) hc.2
      · exact hn r hr e (mem_rulesAt_push.mpr (.inl he))
    · rintro ⟨⟨hh, hp⟩, hrg, hre⟩
      obtain ⟨m₁, h₁⟩ := register_ok_iff.mpr hrg
      refine ⟨m₁, h₁, foldlM_register_ok_iff.mpr ⟨hp, fun r hr e he => ?_⟩⟩
      rw [register_ok h₁] at he
      rcases mem_rulesAt_push.mp he with he | ⟨hk, rfl⟩
      · exact hre r hr e he
      · exact fun hs => hh r hr ⟨hk, hs⟩

theorem build_ok_iff : (∃ m, build rules = .ok m) ↔ rules.Pairwise fun a b => ¬ Clash a b := by
  rw [build, foldlM_register_ok_iff]
  refine and_iff_left fun r _ e he => ?_
  cases he

omit [DecidableEq K] in
theorem Clash.symm {a b : K × ScopedRule α} (h : Clash a b) : Clash b a := by
  obtain ⟨hk, hs⟩ := h
  simp only [ScopedRule.sameScope, Bool.and_eq_true, beq_iff_eq] at hs
  refine ⟨hk.symm, ?_⟩
  simp [ScopedRule.sameScope, hs.1, hs.2]

theorem exists_build_of_subperm {rules'}
    (hs : rules'.Subperm rules) (h : build rules = .ok m) : ∃ m', build rules' = .ok m' := by
  obtain ⟨kept, hp, hk⟩ := hs
  have hpa := (build_ok_iff.mp ⟨m, h⟩).sublist hk
  exact build_ok_iff.mpr ((hp.pairwise_iff fun {_ _} hab hba => hab hba.symm).mp hpa)

theorem rulesAt_build (h : build rules = .ok m) (k) :
    rulesAt m k = (rules.filter fun r => r.1 = k).map (·.2) := by
  rw [foldlM_register_ok h, rulesAt_foldl_push]
  rfl

end RuleMap

end Dataglot
