/-
Column whitelists (`whitelist.rs`): where a table has whitelists for the session,
only the columns they list are visible. A projection of a hidden column by itself
is pruned; any other use of one fails to plan.
-/
import Dataglot.DataFusion.Transform
import Dataglot.Policy.AliasTargets
import Dataglot.Policy.Rule

namespace Dataglot
open DataFusion

structure ColumnWhitelist where
  table : TableReference
  columns : List String
  org : Option String
  groups : Option (List OrgGroupId)

/-- `ColumnWhitelistEnforcer`: the visible columns of every scope, by table. -/
structure ColumnWhitelistEnforcer where
  rules : RuleMap TableReference (Finset String)

/-- `hidden_use_error`, which does not name the column. -/
def hiddenUseError : DataFusionError :=
  .plan ("column access denied by policy: a column not visible to this role is referenced in a " ++
    "predicate, join, grouping, or computed expression")

/-- The error of a projection that is left with no column. -/
def nothingVisibleError : DataFusionError :=
  .plan ("column access denied by policy: the query selects only columns that " ++
    "are not visible to this role")

namespace ColumnWhitelistEnforcer

/-- `ColumnWhitelistEnforcer::new`: two rules of one scope under a key are both kept. -/
def new (rules : List ColumnWhitelist) : ColumnWhitelistEnforcer :=
  ⟨(rules.map fun w => (w.table, ⟨w.org, w.groups, w.columns.toFinset⟩)).foldl RuleMap.push ∅⟩

/-- One rule of a key: the columns of a rule for the session are visible too. -/
def addVisible (id : Identity) (visible : Option (Finset String)) (rule : ScopedRule (Finset String)) :
    Option (Finset String) :=
  if rule.applies id then some (visible.getD ∅ ∪ rule.rule) else visible

variable (E : ColumnWhitelistEnforcer)

/-- `visible_columns`: none for a relation without a whitelist for the session. -/
def visibleColumns (rel : TableReference) (aliasMap : AliasMap) (id : Identity) : Option (Finset String) :=
  let candidates := matchCandidates rel ++
    match aliasMap.lookup rel with
    | some original => matchCandidates original
    | none => []
  candidates.foldl (fun visible cand =>
    match E.rules.lookup cand with
    | none => visible
    | some entries => entries.foldl (addVisible id) visible) none

def isHidden (col : Column) (aliasMap : AliasMap) (id : Identity) : Bool :=
  match col.relation with
  | none => false
  | some rel =>
    match E.visibleColumns rel aliasMap id with
    | some visible => decide (col.name ∉ visible)
    | none => false

def exprTouchesHidden (expr : Expr) (aliasMap : AliasMap) (id : Identity) : Bool :=
  expr.columns.any fun c => E.isHidden c aliasMap id

/-- The loop over a projection's expressions: the columns that stay. -/
def keepVisible (E : ColumnWhitelistEnforcer) (aliasMap : AliasMap) (id : Identity) :
    List Expr → Except DataFusionError (List Expr)
  | [] => .ok []
  | .column c :: es =>
    if E.isHidden c aliasMap id then keepVisible E aliasMap id es
    else do
      let kept ← keepVisible E aliasMap id es
      return .column c :: kept
  | e :: es =>
    if E.exprTouchesHidden e aliasMap id then .error hiddenUseError
    else do
      let kept ← keepVisible E aliasMap id es
      return e :: kept

def enforceNode (S : ProjectionSchema) (E : ColumnWhitelistEnforcer) (node : LogicalPlan) (aliasMap : AliasMap)
    (id : Identity) : Except DataFusionError (Transformed LogicalPlan) :=
  match node with
  | .projection expr input _ => do
    let kept ← E.keepVisible aliasMap id expr
    if kept.isEmpty then .error nothingVisibleError
    else do
      let new ← projectionTryNew S kept input
      return .yes new
  | node =>
    if node.expressions.any fun e => E.exprTouchesHidden e aliasMap id then .error hiddenUseError
    else .ok (.no node)

/-- The closure of `rewrite`; the alias map is that of the plan the walk started from. -/
def visit (S : ProjectionSchema) (E : ColumnWhitelistEnforcer) (id : Identity) : Action := fun root node => do
  let out ← E.enforceNode S node (aliasTargets root) id
  return (out, .cont)

def rewrite (S : ProjectionSchema) (E : ColumnWhitelistEnforcer) (plan : LogicalPlan) (id : Identity) :
    Except DataFusionError (Transformed LogicalPlan) :=
  if E.rules.entries.isEmpty then .ok (.no plan) else rewriteTree (E.visit S id) plan plan

/-! ## The visible columns -/

theorem rules_of_new (rules k) : (new rules).rules.rulesAt k =
      (rules.filter fun w => w.table = k).map fun w => ⟨w.org, w.groups, w.columns.toFinset⟩ := by
  rw [new, RuleMap.rulesAt_foldl_push, List.filter_map, List.map_map]
  rfl

/-- The keys a relation is looked up under, its own and those of the table it is an alias of. -/
def candidates (rel : TableReference) (aliasMap : AliasMap) : List TableReference :=
  matchCandidates rel ++ ((aliasMap.lookup rel).map matchCandidates).getD []

theorem visibleColumns_eq (rel aliasMap id) :
    E.visibleColumns rel aliasMap id =
      ((candidates rel aliasMap).flatMap fun cand => (E.rules.rulesAt cand).filter (·.applies id)).foldl
        (fun visible rule => some (visible.getD ∅ ∪ rule.rule)) none := by
  have hk : ∀ visible cand, (match E.rules.lookup cand with
      | none => visible
      | some entries => entries.foldl (addVisible id) visible) =
      ((E.rules.rulesAt cand).filter (·.applies id)).foldl (fun visible rule => some (visible.getD ∅ ∪ rule.rule))
        visible := by
    intro visible cand
    rw [List.foldl_filter]
    unfold RuleMap.rulesAt
    cases E.rules.lookup cand <;> rfl
  have hc : matchCandidates rel ++ (match aliasMap.lookup rel with
      | some original => matchCandidates original
      | none => []) = candidates rel aliasMap := by
    unfold candidates
    cases aliasMap.lookup rel <;> rfl
  rw [List.foldl_flatMap]
  simp only [visibleColumns, hc, hk]

theorem visibleColumns_eq_none_iff {E : ColumnWhitelistEnforcer} {rel aliasMap id} :
    E.visibleColumns rel aliasMap id = none ↔
      ∀ cand ∈ candidates rel aliasMap, ∀ r ∈ E.rules.rulesAt cand, r.applies id = false := by
  have hs : ∀ (rules : List (ScopedRule (Finset String))) visible,
      rules.foldl (fun visible rule => some (visible.getD ∅ ∪ rule.rule)) visible = none ↔
        visible = none ∧ rules = [] := by
    intro rules
    induction rules with
    | nil => simp
    | cons r rules ih => simp [ih]
  rw [visibleColumns_eq, hs]
  simp [List.flatMap_eq_nil_iff, List.filter_eq_nil_iff]

end ColumnWhitelistEnforcer

end Dataglot
