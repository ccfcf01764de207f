/-
Row filters (`filter.rs`): every scan of a governed table is put under a `Filter`
with the table's predicate. A scan under an alias gets its filter above the
alias, with the predicate's columns re-qualified to it.
-/
import Dataglot.DataFusion.Transform
import Dataglot.Policy.Rule

namespace Dataglot
open DataFusion List

structure RowFilter where
  table : TableReference
  predicate : Expr
  org : Option String
  groups : Option (List OrgGroupId)

/-- `filter::BuildError`. -/
inductive RowFilterBuildError
  | duplicateRule (table : TableReference)
  deriving DecidableEq, Repr

def RowFilterBuildError.message : RowFilterBuildError → String
  | duplicateRule table => "duplicate row-filter rule for table `" ++ table.render ++ "`"

/-- `RowFilterEnforcer`: the predicates of every scope, by table. -/
structure RowFilterEnforcer where
  filters : RuleMap TableReference Expr

def requalifyColumns (predicate : Expr) (name : TableReference) : Expr :=
  predicate.substColumns fun c => .column ⟨some name, c.name⟩

/-- `acc.and(predicate)`, or the predicate alone. -/
def andPredicate (acc : Option Expr) (predicate : Expr) : Option Expr :=
  match acc with
  | none => some predicate
  | some acc => some (.op "AND" [acc, predicate])

/-- The predicates of one key for the session's org and for every org. -/
structure Tiers where
  tenant : Option Expr
  operatorWide : Option Expr

/-- Both predicates have the property, as far as they are there. -/
def Tiers.All (P : Expr → Prop) (t : Tiers) : Prop :=
  (∀ p, t.tenant = some p → P p) ∧ ∀ p, t.operatorWide = some p → P p

def Tiers.IsEmpty (t : Tiers) : Prop := t.tenant = none ∧ t.operatorWide = none

namespace RowFilterEnforcer

def new (filters : List RowFilter) : Except RowFilterBuildError RowFilterEnforcer := do
  let rules := filters.map fun f => (f.table, ScopedRule.mk f.org f.groups f.predicate)
  let m ← (RuleMap.build rules).mapError .duplicateRule
  return ⟨m⟩

/-- One rule of a key: it joins the predicates of its tier if it is for the session. -/
def addRule (id : Identity) (acc : Tiers) (rule : ScopedRule Expr) : Tiers :=
  if !subjectMatches rule.groups id.orgGroups then acc
  else
    match rule.org with
    | some _ =>
      if orgRuleApplies rule.org id then { acc with tenant := andPredicate acc.tenant rule.rule } else acc
    | none => { acc with operatorWide := andPredicate acc.operatorWide rule.rule }

/-- One key of `resolve_predicate`: a tier keeps the first key that has predicates for it. -/
def addCandidate (E : RowFilterEnforcer) (id : Identity) (acc : Tiers) (cand : TableReference) : Tiers :=
  match E.filters.lookup cand with
  | none => acc
  | some entries =>
    let found := entries.foldl (addRule id) ⟨none, none⟩
    ⟨acc.tenant.or found.tenant, acc.operatorWide.or found.operatorWide⟩

/-- `resolve_predicate`: the session's org's predicate for the table, else the operator's. -/
def resolvePredicate (E : RowFilterEnforcer) (table : TableReference) (id : Identity) : Option Expr :=
  let tiers := (matchCandidates table).foldl (E.addCandidate id) ⟨none, none⟩
  tiers.tenant.or tiers.operatorWide

/-- The closure of `rewrite`, at a node whose subqueries are rewritten. -/
def visit (T : PredicateTyping) (E : RowFilterEnforcer) (id : Identity) : Action := fun _ node =>
  match node with
  | .subqueryAlias name (.tableScan t _ _ _) =>
    match E.resolvePredicate t id with
    | some predicate => do
      let filter ← filterTryNew T (requalifyColumns predicate name) node
      return (.yes filter, .jump)
    | none => .ok (.no node, .cont)
  | .tableScan t _ _ _ =>
    match E.resolvePredicate t id with
    | some predicate => do
      let filter ← filterTryNew T predicate node
      -- without the jump the walk would come to the scan again
      return (.yes filter, .jump)
    | none => .ok (.no node, .cont)
  | _ => .ok (.no node, .cont)

def rewrite (T : PredicateTyping) (E : RowFilterEnforcer) (plan : LogicalPlan) (id : Identity) :
    Except DataFusionError (Transformed LogicalPlan) :=
  if E.filters.entries.isEmpty then .ok (.no plan) else rewriteTree (E.visit T id) plan plan

/-! ## The resolved predicate -/

theorem filters_of_new {rules E} (h : new rules = .ok E) (k) :
    E.filters.rulesAt k = (rules.filter fun f => f.table = k).map fun f => ⟨f.org, f.groups, f.predicate⟩ := by
  simp only [new, Except.bind_ok_iff, Except.mapError_ok_iff, Except.pure_ok_iff] at h
  obtain ⟨m, hm, rfl⟩ := h
  rw [RuleMap.rulesAt_build hm k, filter_map, map_map]
  rfl

theorem exists_new_of_subperm {rules rules' E} (hs : rules'.Subperm rules)
    (h : new rules = .ok E) : ∃ E', new rules' = .ok E' := by
  simp only [new, Except.bind_ok_iff, Except.mapError_ok_iff] at h
  obtain ⟨m, hm, -⟩ := h
  obtain ⟨kept, hp, hk⟩ := hs
  obtain ⟨m', hm'⟩ := RuleMap.exists_build_of_subperm ⟨_, hp.map _, hk.map _⟩ hm
  exact ⟨⟨m'⟩, by rw [new, hm']; rfl⟩

theorem addCandidate_eq (E : RowFilterEnforcer) (id acc cand) :
    E.addCandidate id acc cand =
      ⟨acc.tenant.or ((E.filters.rulesAt cand).foldl (addRule id) ⟨none, none⟩).tenant,
        acc.operatorWide.or ((E.filters.rulesAt cand).foldl (addRule id) ⟨none, none⟩).operatorWide⟩ := by
  unfold addCandidate RuleMap.rulesAt
  cases E.filters.lookup cand with
  | none => simp
  | some entries => rfl

theorem isEmpty_addRule {id acc rule} : (addRule id acc rule).IsEmpty ↔ acc.IsEmpty ∧ rule.applies id = false := by
  have hand : ∀ acc p, andPredicate acc p ≠ none := fun acc p => by cases acc <;> simp [andPredicate]
  unfold addRule ScopedRule.applies Tiers.IsEmpty
  cases hs : subjectMatches rule.groups id.orgGroups with
  | false => simp
  | true =>
    cases hr : rule.org with
    | none => simp [hand]
    | some org =>
      cases ho : orgRuleApplies (some org) id with
      | false => simp
      | true => simp [hand]

theorem isEmpty_foldl_addRule {id} : ∀ {entries : List (ScopedRule Expr)} {acc},
    (entries.foldl (addRule id) acc).IsEmpty ↔ acc.IsEmpty ∧ ∀ r ∈ entries, r.applies id = false
  | [], acc => by simp
  | r :: rs, acc => by
    rw [foldl_cons, isEmpty_foldl_addRule, isEmpty_addRule, forall_mem_cons, and_assoc]

theorem isEmpty_foldl_addCandidate {E : RowFilterEnforcer} {id} :
    ∀ {cands : List TableReference} {acc}, (cands.foldl (E.addCandidate id) acc).IsEmpty ↔
      acc.IsEmpty ∧ ∀ cand ∈ cands, ∀ r ∈ E.filters.rulesAt cand, r.applies id = false
  | [], acc => by simp
  | cand :: cands, acc => by
    have hc : (E.addCandidate id acc cand).IsEmpty ↔
        acc.IsEmpty ∧ ∀ r ∈ E.filters.rulesAt cand, r.applies id = false := by
      have h := @isEmpty_foldl_addRule id (E.filters.rulesAt cand) ⟨none, none⟩
      simp only [Tiers.IsEmpty, true_and, and_self] at h
      simp only [addCandidate_eq, Tiers.IsEmpty, Option.or_eq_none_iff, ← h]
      exact and_and_and_comm
    rw [foldl_cons, isEmpty_foldl_addCandidate, hc, forall_mem_cons, and_assoc]

theorem resolvePredicate_eq_none_iff {E : RowFilterEnforcer} {id table} : E.resolvePredicate table id = none ↔
      ∀ cand ∈ matchCandidates table, ∀ r ∈ E.filters.rulesAt cand, r.applies id = false := by
  have h := @isEmpty_foldl_addCandidate E id (matchCandidates table) ⟨none, none⟩
  simp only [Tiers.IsEmpty, true_and, and_self] at h
  rw [resolvePredicate, Option.or_eq_none_iff, h]

theorem resolvePredicate_of_isEmpty {E : RowFilterEnforcer} {id} (h : E.filters.entries.isEmpty)
    (t) : E.resolvePredicate t id = none := by
  refine resolvePredicate_eq_none_iff.mpr fun cand _ r hr => ?_
  rw [RuleMap.rulesAt_of_isEmpty h] at hr
  cases hr

section Invariant

variable {P : Expr → Prop} (hand : ∀ p q, P p → P q → P (.op "AND" [p, q]))

include hand in
theorem andPredicate_all {acc p q} (ha : ∀ q, acc = some q → P q) (hp : P p)
    (h : andPredicate acc p = some q) : P q := by
  cases acc with
  | none =>
    cases h
    exact hp
  | some a =>
    cases h
    exact hand a p (ha a rfl) hp

include hand in
theorem addRule_all {id acc rule} (ha : acc.All P) (hr : P rule.rule) : (addRule id acc rule).All P := by
  unfold addRule
  split
  · exact ha
  split
  · split
    · exact ⟨fun q hq => andPredicate_all hand ha.1 hr hq, ha.2⟩
    · exact ha
  · exact ⟨ha.1, fun q hq => andPredicate_all hand ha.2 hr hq⟩

include hand in
theorem addCandidate_all {E : RowFilterEnforcer} {id acc cand}
    (hE : ∀ r ∈ E.filters.rulesAt cand, P r.rule) (ha : acc.All P) : (E.addCandidate id acc cand).All P := by
  have hf : ((E.filters.rulesAt cand).foldl (addRule id) ⟨none, none⟩).All P :=
    foldlRecOn _ _ ⟨by simp, by simp⟩ fun acc ha r hr => addRule_all hand ha (hE r hr)
  rw [addCandidate_eq]
  refine ⟨fun p hp => ?_, fun p hp => ?_⟩
  · rcases Option.or_eq_some_iff.mp hp with h | ⟨-, h⟩
    · exact ha.1 p h
    · exact hf.1 p h
  · rcases Option.or_eq_some_iff.mp hp with h | ⟨-, h⟩
    · exact ha.2 p h
    · exact hf.2 p h

include hand in
theorem resolvePredicate_all {E : RowFilterEnforcer} {id table p}
    (hE : ∀ k, ∀ r ∈ E.filters.rulesAt k, P r.rule) (h : E.resolvePredicate table id = some p) : P p := by
  have ha : ((matchCandidates table).foldl (E.addCandidate id) ⟨none, none⟩).All P :=
    foldlRecOn _ _ ⟨by simp, by simp⟩ fun acc hac cand _ => addCandidate_all hand (hE cand) hac
  rcases Option.or_eq_some_iff.mp h with h | ⟨-, h⟩
  · exact ha.1 p h
  · exact ha.2 p h

end Invariant

end RowFilterEnforcer

end Dataglot
