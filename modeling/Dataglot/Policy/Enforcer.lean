/-
Enforcers as the server stacks them (`PolicyEnforcer` in `lib.rs`). Each rewrites a plan, and says
without rewriting it which decisions apply to it (`explain`). A composite runs its layers one after
another on what the one before has made of the plan; it asks each of them about the plan as it was
given. `MutableEnforcer` hands `rewrite` on to the enforcer that is published at the moment.

`explain` has a default, which is to report nothing. The tag policies and the mutable wrapper leave
it at that.
-/
import Dataglot.Policy.AccessDeny
import Dataglot.Policy.Grant
import Dataglot.Policy.RuleStore

namespace Dataglot
open DataFusion List

structure Engine where
  typing : PredicateTyping
  schemaName : Expr → String
  /-- masks inside one another that `mask_expr` unfolds -/
  fuel : Nat
  display : Expr → String

/-! ## Decisions -/

inductive PolicyAction
  | mask
  | rowFilter
  | deny
  deriving DecidableEq, Repr

def PolicyAction.asStr : PolicyAction → String
  | mask => "mask"
  | rowFilter => "row_filter"
  | deny => "deny"

structure PolicyDecision where
  action : PolicyAction
  resource : String
  detail : String
  deriving DecidableEq, Repr

/-- The `push` of the `explain` loops: one decision for a resource. -/
def pushDecision (out : List PolicyDecision) (d : PolicyDecision) : List PolicyDecision :=
  if out.any fun d' => d'.resource == d.resource then out else out ++ [d]

def pushDecisions (ds : List PolicyDecision) : List PolicyDecision := ds.foldl pushDecision []

variable {d : PolicyDecision} {ds : List PolicyDecision}

theorem mem_of_mem_pushDecision {out d'} (h : d ∈ pushDecision out d') : d ∈ out ∨ d = d' := by
  unfold pushDecision at h
  split_ifs at h
  · exact .inl h
  · simpa using h

theorem mem_of_mem_foldl_pushDecision : ∀ {ds out : List PolicyDecision},
    d ∈ ds.foldl pushDecision out → d ∈ out ∨ d ∈ ds
  | [], out, h => .inl h
  | d' :: ds, out, h => by
    rw [foldl_cons] at h
    rcases mem_of_mem_foldl_pushDecision h with h | h
    · rcases mem_of_mem_pushDecision h with h | rfl
      · exact .inl h
      · exact .inr mem_cons_self
    · exact .inr (mem_cons_of_mem _ h)

theorem mem_of_mem_pushDecisions (h : d ∈ pushDecisions ds) : d ∈ ds :=
  (mem_of_mem_foldl_pushDecision h).resolve_left not_mem_nil

theorem foldl_pushDecision_resource {resource} : ∀ {ds out : List PolicyDecision},
    (∃ d ∈ ds.foldl pushDecision out, d.resource = resource) ↔
      (∃ d ∈ out, d.resource = resource) ∨ ∃ d ∈ ds, d.resource = resource
  | [], out => by simp
  | d' :: ds, out => by
    have hp : (∃ d ∈ pushDecision out d', d.resource = resource) ↔
        (∃ d ∈ out, d.resource = resource) ∨ d'.resource = resource := by
      unfold pushDecision
      split_ifs with ha
      · refine (or_iff_left_of_imp ?_).symm
        obtain ⟨d, hd, heq⟩ := any_eq_true.mp ha
        exact fun hr => ⟨d, hd, (beq_iff_eq.mp heq).trans hr⟩
      · simp [or_and_right, exists_or]
    rw [foldl_cons, foldl_pushDecision_resource, hp, or_assoc, exists_mem_cons_iff]

theorem exists_mem_pushDecisions {resource : String} :
    (∃ d ∈ pushDecisions ds, d.resource = resource) ↔ ∃ d ∈ ds, d.resource = resource := by
  rw [pushDecisions, foldl_pushDecision_resource]
  simp

theorem pushDecisions_eq_nil : pushDecisions ds = [] ↔ ds = [] := by
  constructor
  · intro h
    refine eq_nil_iff_forall_not_mem.mpr fun d hd => ?_
    obtain ⟨d', hd', -⟩ := exists_mem_pushDecisions.mpr ⟨d, hd, rfl⟩
    rw [h] at hd'
    cases hd'
  · rintro rfl
    rfl

/-! ## The walks of `explain` -/

mutual

/-- The nodes that `LogicalPlan::apply` visits, in its order. Plans embedded in expressions are not among them. -/
def mainNodes : LogicalPlan → List LogicalPlan
  | .tableScan t projection filters fetch => [.tableScan t projection filters fetch]
  | .filter predicate input => .filter predicate input :: mainNodes input
  | .projection expr input schema => .projection expr input schema :: mainNodes input
  | .subqueryAlias name input => .subqueryAlias name input :: mainNodes input
  | .node kind detail exprs inputs schema => .node kind detail exprs inputs schema :: mainNodesList inputs

def mainNodesList : List LogicalPlan → List LogicalPlan
  | [] => []
  | p :: ps => mainNodes p ++ mainNodesList ps

end

theorem mainNodesList_eq (ps) : mainNodesList ps = ps.flatMap mainNodes := by
  induction ps with
  | nil => rfl
  | cons p ps ih => rw [mainNodesList, ih, flatMap_cons]

theorem mainNodes_eq (p) : mainNodes p = p :: p.inputs.flatMap mainNodes := by
  cases p <;> simp [mainNodes, LogicalPlan.inputs, mainNodesList_eq]

def tableScanned : LogicalPlan → Option TableReference
  | .tableScan t _ _ _ => some t
  | _ => none

/-- The scans of the main tree. -/
def mainScans (p : LogicalPlan) : List TableReference := (mainNodes p).filterMap tableScanned

/-- What the walk of `collect_plan_columns_into` pushes itself. -/
def ownColumns (p : LogicalPlan) : List Column :=
  (mainNodes p).flatMap fun node => node.expressions.flatMap Expr.columns

mutual

/-- What the recursive passes over the queued subquery plans push. -/
def nestedColumns : LogicalPlan → List Column
  | .tableScan _ _ filters _ => nestedOfExprs filters
  | .filter predicate input => nestedOfExpr predicate ++ nestedColumns input
  | .projection expr input _ => nestedOfExprs expr ++ nestedColumns input
  | .subqueryAlias _ input => nestedColumns input
  | .node _ _ exprs inputs _ => nestedOfExprs exprs ++ nestedOfInputs inputs

def nestedOfInputs : List LogicalPlan → List Column
  | [] => []
  | p :: ps => nestedColumns p ++ nestedOfInputs ps

def nestedOfExpr : Expr → List Column
  | .scalarSubquery q _ => ownColumns q ++ nestedColumns q
  | .inSubquery e q _ _ => ownColumns q ++ nestedColumns q ++ nestedOfExpr e
  | .setComparison e q _ _ _ => ownColumns q ++ nestedColumns q ++ nestedOfExpr e
  | .existsSubquery q _ _ => ownColumns q ++ nestedColumns q
  | .aliasExpr e _ _ => nestedOfExpr e
  | .op _ args => nestedOfExprs args
  | .column _ => []
  | .outerReferenceColumn _ => []
  | .literal _ => []

def nestedOfExprs : List Expr → List Column
  | [] => []
  | e :: es => nestedOfExpr e ++ nestedOfExprs es

end

def collectPlanColumns (p : LogicalPlan) : List Column := ownColumns p ++ nestedColumns p

section Collected

variable {c : Column}

theorem mem_ownColumns {p} : c ∈ ownColumns p ↔
    (∃ e ∈ p.expressions, .column c ∈ e.nodes) ∨ ∃ i ∈ p.inputs, c ∈ ownColumns i := by
  rw [ownColumns, mainNodes_eq, flatMap_cons, mem_append, flatMap_assoc]
  simp only [mem_flatMap, Expr.mem_columns, ownColumns]

theorem mem_nestedOfInputs {ps} : c ∈ nestedOfInputs ps ↔ ∃ p ∈ ps, c ∈ nestedColumns p := by
  induction ps with
  | nil => simp [nestedOfInputs]
  | cons p ps ih => simp [nestedOfInputs, ih]

mutual

theorem mem_nestedOfExpr : ∀ {e}, c ∈ nestedOfExpr e ↔ ∃ q, e.Embeds q ∧ c ∈ collectPlanColumns q
  | .scalarSubquery q _ | .existsSubquery q _ _ => by simp [nestedOfExpr, collectPlanColumns]
  | .inSubquery e q _ _ | .setComparison e q _ _ _ => by
    rw [nestedOfExpr, mem_append, @mem_nestedOfExpr e]
    simp [collectPlanColumns, or_and_right, exists_or]
  | .aliasExpr e _ _ => by simp [nestedOfExpr, @mem_nestedOfExpr e]
  | .op _ args => by
    simp only [nestedOfExpr, @mem_nestedOfExprs args, Expr.embeds_op]
    exact ⟨fun ⟨e, he, q, hq, hc⟩ => ⟨q, ⟨e, he, hq⟩, hc⟩, fun ⟨q, ⟨e, he, hq⟩, hc⟩ => ⟨e, he, q, hq, hc⟩⟩
  | .column _ | .outerReferenceColumn _ | .literal _ => by simp [nestedOfExpr]

theorem mem_nestedOfExprs : ∀ {es}, c ∈ nestedOfExprs es ↔ ∃ e ∈ es, ∃ q, e.Embeds q ∧ c ∈ collectPlanColumns q
  | [] => by simp [nestedOfExprs]
  | e :: es => by simp [nestedOfExprs, @mem_nestedOfExpr e, @mem_nestedOfExprs es]

end

theorem mem_nestedColumns {p} : c ∈ nestedColumns p ↔
    (∃ e ∈ p.expressions, ∃ q, e.Embeds q ∧ c ∈ collectPlanColumns q) ∨ ∃ i ∈ p.inputs, c ∈ nestedColumns i := by
  cases p <;> simp [nestedColumns, LogicalPlan.expressions, LogicalPlan.inputs, mem_nestedOfExpr, mem_nestedOfExprs,
    mem_nestedOfInputs]

/-- The columns that are collected are those that the plan reads, at any depth of subqueries. -/
theorem mem_collectPlanColumns (p) : c ∈ collectPlanColumns p ↔ Reads c p := by
  refine LogicalPlan.induct ?_ p
  intro p hin hex
  rw [collectPlanColumns, mem_append, mem_ownColumns, mem_nestedColumns, reads_iff]
  have hit : (∃ i ∈ p.inputs, Reads c i) ↔
      (∃ i ∈ p.inputs, c ∈ ownColumns i) ∨ ∃ i ∈ p.inputs, c ∈ nestedColumns i := by
    simp only [← exists_or, ← and_or_left, ← mem_append]
    exact exists_congr fun i => and_congr_right fun hi => (hin i hi).symm
  have hem : (∃ e ∈ p.expressions, .column c ∈ e.nodes ∨ ∃ q, e.Embeds q ∧ Reads c q) ↔
      (∃ e ∈ p.expressions, .column c ∈ e.nodes) ∨
        ∃ e ∈ p.expressions, ∃ q, e.Embeds q ∧ c ∈ collectPlanColumns q := by
    rw [← exists_or]
    refine exists_congr fun e => ?_
    rw [← and_or_left]
    refine and_congr_right fun he => or_congr_right (exists_congr fun q => and_congr_right fun hq => ?_)
    exact (hex e he q hq).symm
  rw [hit, hem]
  exact or_or_or_comm

end Collected

/-! ## What the layers report -/

/-- `to_string` of an error. A walk that does not end has none. -/
def errorText : DataFusionError → String
  | .plan message => "Error during planning: " ++ message
  | .recursionLimit => ""

namespace AccessDenyEnforcer

variable (E : AccessDenyEnforcer) (plan : LogicalPlan) (id : Identity)

def denialDecision (resource : String) : PolicyDecision := ⟨.deny, resource, "access denied by policy"⟩

/-- The loop of `explain` over the scans, those of subqueries included, before duplicates go. -/
def explainTables (applicable : List AccessDenial) : List PolicyDecision :=
  (scans plan).flatMap fun t =>
    (applicable.filter fun d => d.column.isNone && tableMatches d.table t).map fun d => denialDecision d.table.render

def explainColumns (applicable : List AccessDenial) : List PolicyDecision :=
  (collectPlanColumns plan).flatMap fun c =>
    match c.relation with
    | none => []
    | some rel =>
      (applicable.filter fun d => d.column == some c.name && tableMatches d.table rel).map fun d =>
        denialDecision (d.table.render ++ "." ++ c.name)

def explain : List PolicyDecision :=
  let applicable := E.denials.filter fun d => d.appliesTo id
  if applicable.isEmpty then []
  else pushDecisions (explainTables plan applicable ++ explainColumns plan applicable)

end AccessDenyEnforcer

def GrantEnforcer.explain (E : GrantEnforcer) (plan : LogicalPlan) (id : Identity) : List PolicyDecision :=
  if E.mode = .open ∨ id.isSuperuser then []
  else
    pushDecisions ((scans plan).filterMap fun t =>
      (E.missingPrivilege E.grants id t).map fun err => ⟨.deny, t.render, errorText err⟩)

/-- Of the scans it looks at those of the main tree. -/
def RowFilterEnforcer.explain (display : Expr → String) (E : RowFilterEnforcer) (plan : LogicalPlan) (id : Identity) :
    List PolicyDecision :=
  if E.filters.entries.isEmpty then []
  else
    pushDecisions ((mainScans plan).filterMap fun t =>
      (E.resolvePredicate t id).map fun predicate =>
        ⟨.rowFilter, t.render, "rows kept where: " ++ display predicate⟩)

namespace ColumnMaskingEnforcer

def pickApplicable (entries : List (ScopedRule Expr)) (id : Identity) : Option Expr :=
  (entries.foldl (pickRule id) none).map (·.2)

/-- The test of `explain` on a column; the table an alias stands for is not looked up. -/
def explains (E : ColumnMaskingEnforcer) (id : Identity) (rel : TableReference) (column : String) : Bool :=
  (E.candidateRefs rel).any fun cand =>
    match E.masks.lookup (cand, column) with
    | some entries => (pickApplicable entries id).isSome
    | none => false

def explain (E : ColumnMaskingEnforcer) (plan : LogicalPlan) (id : Identity) : List PolicyDecision :=
  if E.masks.entries.isEmpty then []
  else
    pushDecisions ((collectPlanColumns plan).filterMap fun c =>
      match c.relation with
      | none => none
      | some rel =>
        if E.explains id rel c.name then
          some ⟨.mask, rel.render ++ "." ++ c.name, "column value masked at projection"⟩
        else none)

end ColumnMaskingEnforcer

/-! ## Which masks and filters are reported -/

/-! ## Stacks -/

/-- The types behind `dyn PolicyEnforcer` that the server composes. -/
inductive Enforcer
  | noop
  | accessDeny (E : AccessDenyEnforcer)
  | grant (E : GrantEnforcer)
  | tags (E : TagBasedEnforcer)
  | masks (E : ColumnMaskingEnforcer)
  | rowFilters (E : RowFilterEnforcer)
  | composite (inner : List Enforcer)
  | mutable (current : Enforcer)

namespace Enforcer

mutual

def rewrite (D : Engine) : Enforcer → LogicalPlan → Identity → Except DataFusionError (Transformed LogicalPlan)
  | .noop, plan, _ => .ok (.no plan)
  | .accessDeny E, plan, id => E.rewrite plan id
  | .grant E, plan, id => E.rewrite plan id
  | .tags E, plan, id => E.rewrite D.typing D.schemaName D.fuel plan id
  | .masks E, plan, id => E.rewrite D.schemaName D.fuel plan id
  | .rowFilters E, plan, id => E.rewrite D.typing plan id
  | .composite inner, plan, id => rewriteInner D inner plan id false
  | .mutable current, plan, id => current.rewrite D plan id

/-- The loop of `CompositeEnforcer::rewrite`. -/
def rewriteInner (D : Engine) : List Enforcer → LogicalPlan → Identity → (anyChanged : Bool) →
    Except DataFusionError (Transformed LogicalPlan)
  | [], current, _, anyChanged => .ok ⟨current, anyChanged⟩
  | e :: inner, current, id, anyChanged => do
    let t ← e.rewrite D current id
    rewriteInner D inner t.data id (anyChanged || t.transformed)

end

mutual

def explain (D : Engine) (plan : LogicalPlan) (id : Identity) : Enforcer → List PolicyDecision
  | .accessDeny E => E.explain plan id
  | .grant E => E.explain plan id
  | .masks E => E.explain plan id
  | .rowFilters E => E.explain D.display plan id
  | .composite inner => explainInner D plan id inner
  -- the default of the trait
  | .noop => []
  | .tags _ => []
  | .mutable _ => []

def explainInner (D : Engine) (plan : LogicalPlan) (id : Identity) : List Enforcer → List PolicyDecision
  | [] => []
  | e :: inner => explain D plan id e ++ explainInner D plan id inner

end

end Enforcer

namespace Layers

def list (layers : Layers) : List Enforcer :=
  (layers.tags.map Enforcer.tags).toList ++ (layers.masks.map Enforcer.masks).toList ++
    (layers.filters.map Enforcer.rowFilters).toList

/-- What `RuleStorage::compose` makes of the layers. -/
def enforcer (layers : Layers) : Enforcer :=
  match layers.list with
  | [] => .noop
  | [e] => e
  | inner => .composite inner

end Layers

/-! ## Layer by layer -/

namespace Enforcer

variable {D : Engine} {id : Identity}

theorem rewriteInner_anyChanged {b} : ∀ {inner plan}, rewriteInner D inner plan id b =
      (rewriteInner D inner plan id false).map fun t => ⟨t.data, b || t.transformed⟩
  | [], plan => by simp [rewriteInner, Except.map]
  | e :: inner, plan => by
    rw [rewriteInner, rewriteInner]
    cases e.rewrite D plan id with
    | error => rfl
    | ok t =>
      simp only [bind, Except.bind]
      rw [rewriteInner_anyChanged, @rewriteInner_anyChanged (false || t.transformed)]
      cases rewriteInner D inner t.data id false with
      | error => rfl
      | ok t' => simp [Except.map, Bool.or_assoc]

theorem rewriteInner_cons_ok {e inner plan r} : rewriteInner D (e :: inner) plan id false = .ok r ↔
      ∃ t, e.rewrite D plan id = .ok t ∧ ∃ t', rewriteInner D inner t.data id false = .ok t' ∧
        r = ⟨t'.data, t.transformed || t'.transformed⟩ := by
  rw [rewriteInner, Except.bind_ok_iff]
  refine exists_congr fun t => and_congr_right fun _ => ?_
  rw [Bool.false_or, rewriteInner_anyChanged]
  cases rewriteInner D inner t.data id false with
  | error => simp [Except.map]
  | ok t' => simp [Except.map, eq_comm]

theorem rewriteInner_singleton (e plan) :
    rewriteInner D [e] plan id false = e.rewrite D plan id := by
  rw [rewriteInner]
  cases e.rewrite D plan id <;> rfl

theorem explainInner_eq (plan) : ∀ inner, explainInner D plan id inner = inner.flatMap (explain D plan id)
  | [] => rfl
  | e :: inner => by rw [explainInner, explainInner_eq plan inner, flatMap_cons]

end Enforcer

namespace Layers

variable {D : Engine} {id : Identity} (layers : Layers) (plan : LogicalPlan)

theorem rewrite_enforcer : layers.enforcer.rewrite D plan id = Enforcer.rewriteInner D layers.list plan id false := by
  unfold enforcer
  split
  next h => rw [h, Enforcer.rewrite, Enforcer.rewriteInner, Transformed.no]
  next e h => rw [h, Enforcer.rewriteInner_singleton]
  next inner _ _ => rw [Enforcer.rewrite]

theorem explain_enforcer : layers.enforcer.explain D plan id = layers.list.flatMap (Enforcer.explain D plan id) := by
  unfold enforcer
  split
  next h => rw [h, Enforcer.explain, flatMap_nil]
  next e h => rw [h, flatMap_singleton]
  next inner _ _ => rw [Enforcer.explain, Enforcer.explainInner_eq]

end Layers

end Dataglot
