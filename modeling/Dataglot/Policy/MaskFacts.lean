/-
Which references to masked columns are replaced.

A reference is looked up under its qualifier and, if that is an alias, under the
table of the alias's last declaration anywhere in the plan. SQL scopes names by
subtree. So a reference is missed when its alias is declared again, over another
table, further on in the plan; and the walk does not know references without a
qualifier or to the query around a subquery at all.
-/
import Dataglot.Policy.MaskWalk

namespace Dataglot
open DataFusion Expr List

/-! ## A plan with its references replaced -/

/-- A rewritten expression without the alias that gives it back the name of the original. -/
def withoutAliasBack (original e : Expr) : Expr :=
  match original, e with
  | .column _, e => e
  | .aliasExpr _ _ _, e => e
  | _, .aliasExpr body none _ => body
  | _, e => e

theorem withoutAliasBack_mapSubqueries {f} (e) :
    withoutAliasBack e (e.mapSubqueries f) = e.mapSubqueries f := by
  cases e <;> rfl

section Replaced

variable (governed : Scope → Column → Prop)

/-- The references among a node's own that must be replaced. -/
def MustReplace (node : LogicalPlan) (scope : Scope) (c : Column) : Prop :=
  readsForItself node = false ∧ governed scope c

mutual

/-- The second plan is the first with every governed reference replaced in the nodes that reach the
output, outer references included, and so in all subqueries. -/
def AllReplaced (outer : Scope) : LogicalPlan → LogicalPlan → Prop
  | .tableScan t pr filters fetch, .tableScan _ _ filters' _ =>
    let p := LogicalPlan.tableScan t pr filters fetch
    ExprsReplaced (MustReplace governed p (scopeOf p)) (MustReplace governed p outer) (scopeOf p ++ outer) filters
      (filters.zipWith withoutAliasBack filters')
  | .filter predicate input, .filter predicate' input' =>
    let p := LogicalPlan.filter predicate input
    ExprReplaced (MustReplace governed p (scopeOf p)) (MustReplace governed p outer) (scopeOf p ++ outer) predicate
      (withoutAliasBack predicate predicate') ∧ AllReplaced outer input input'
  | .projection expr input schema, .projection expr' input' _ =>
    let p := LogicalPlan.projection expr input schema
    ExprsReplaced (MustReplace governed p (scopeOf p)) (MustReplace governed p outer) (scopeOf p ++ outer) expr
      (expr.zipWith withoutAliasBack expr') ∧ AllReplaced outer input input'
  | .subqueryAlias _ input, .subqueryAlias _ input' => AllReplaced outer input input'
  | .node kind detail exprs inputs schema, .node _ _ exprs' inputs' _ =>
    let p := LogicalPlan.node kind detail exprs inputs schema
    ExprsReplaced (MustReplace governed p (scopeOf p)) (MustReplace governed p outer) (scopeOf p ++ outer) exprs
      (exprs.zipWith withoutAliasBack exprs') ∧ InputsReplaced outer inputs inputs'
  | _, _ => False
termination_by structural p _ => p

def InputsReplaced (outer : Scope) : List LogicalPlan → List LogicalPlan → Prop
  | [], [] => True
  | p :: ps, p' :: ps' => AllReplaced outer p p' ∧ InputsReplaced outer ps ps'
  | _, _ => False
termination_by structural ps _ => ps

def ExprReplaced (own around : Column → Prop) (inner : Scope) : Expr → Expr → Prop
  | .column c, e' => own c → e' ≠ .column c
  | .outerReferenceColumn c, e' => around c → e' ≠ .outerReferenceColumn c
  | .literal _, _ => True
  | .aliasExpr e _ _, .aliasExpr e' _ _ => ExprReplaced own around inner e e'
  | .op _ args, .op _ args' => ExprsReplaced own around inner args args'
  | .scalarSubquery q _, .scalarSubquery q' _ => AllReplaced inner q q'
  | .inSubquery e q _ _, .inSubquery e' q' _ _ => ExprReplaced own around inner e e' ∧ AllReplaced inner q q'
  | .setComparison e q _ _ _, .setComparison e' q' _ _ _ =>
    ExprReplaced own around inner e e' ∧ AllReplaced inner q q'
  | .existsSubquery q _ _, .existsSubquery q' _ _ => AllReplaced inner q q'
  | _, _ => False
termination_by structural e _ => e

def ExprsReplaced (own around : Column → Prop) (inner : Scope) : List Expr → List Expr → Prop
  | [], [] => True
  | e :: es, e' :: es' => ExprReplaced own around inner e e' ∧ ExprsReplaced own around inner es es'
  | _, _ => False
termination_by structural es _ => es

end

variable {governed}

theorem allReplaced_iff {outer p es is} (hes : es.length = p.expressions.length) (his : is.length = p.inputs.length) :
    AllReplaced governed outer p ((p.withNewExpressions es).withNewInputs is) ↔
      ExprsReplaced governed (MustReplace governed p (scopeOf p)) (MustReplace governed p outer) (scopeOf p ++ outer)
        p.expressions (p.expressions.zipWith withoutAliasBack es) ∧ InputsReplaced governed outer p.inputs is := by
  cases p with
  | tableScan t pr filters fetch =>
    obtain rfl := length_eq_zero_iff.mp his
    simp [LogicalPlan.withNewExpressions, LogicalPlan.withNewInputs, LogicalPlan.expressions, LogicalPlan.inputs,
      AllReplaced, InputsReplaced]
  | filter predicate input =>
    obtain ⟨e, rfl⟩ := length_eq_one_iff.mp hes
    obtain ⟨i, rfl⟩ := length_eq_one_iff.mp his
    simp [LogicalPlan.withNewExpressions, LogicalPlan.withNewInputs, LogicalPlan.expressions, LogicalPlan.inputs,
      AllReplaced, InputsReplaced, ExprsReplaced]
  | projection expr input schema =>
    obtain ⟨i, rfl⟩ := length_eq_one_iff.mp his
    simp [LogicalPlan.withNewExpressions, LogicalPlan.withNewInputs, LogicalPlan.expressions, LogicalPlan.inputs,
      AllReplaced, InputsReplaced]
  | subqueryAlias name input =>
    obtain ⟨i, rfl⟩ := length_eq_one_iff.mp his
    simp [LogicalPlan.withNewExpressions, LogicalPlan.withNewInputs, LogicalPlan.expressions, LogicalPlan.inputs,
      AllReplaced, InputsReplaced, ExprsReplaced]
  | node kind detail exprs inputs schema =>
    simp [LogicalPlan.withNewExpressions, LogicalPlan.withNewInputs, LogicalPlan.expressions, LogicalPlan.inputs,
      AllReplaced]

theorem inputsReplaced_map {outer f ps} :
    InputsReplaced governed outer ps (ps.map f) ↔ ∀ p ∈ ps, AllReplaced governed outer p (f p) := by
  induction ps with
  | nil => simp [InputsReplaced]
  | cons p ps ih => simp [InputsReplaced, ih]

section Substitution

variable {own around : Column → Prop} {inner : Scope} {σ : Column → Expr} {f : LogicalPlan → LogicalPlan}

/-- What must hold of an expression for a substitution to replace all that must be replaced in it. -/
def ReplacesIn (governed : Scope → Column → Prop) (own around : Column → Prop) (inner : Scope) (σ : Column → Expr)
    (f : LogicalPlan → LogicalPlan) (e : Expr) : Prop :=
  (∀ c, .column c ∈ e.nodes → own c → σ c ≠ .column c) ∧
    (∀ c, .outerReferenceColumn c ∈ e.nodes → ¬ around c) ∧ ∀ q, e.Embeds q → AllReplaced governed inner q (f q)

mutual

theorem exprReplaced_iff : ∀ {e}, ExprReplaced governed own around inner e ((e.mapSubqueries f).substColumns σ) ↔
      ReplacesIn governed own around inner σ f e
  | .column c => by simp [ExprReplaced, mapSubqueries, substColumns, ReplacesIn, nodes]
  | .outerReferenceColumn c => by simp [ExprReplaced, mapSubqueries, substColumns, ReplacesIn, nodes]
  | .literal _ => by simp [ExprReplaced, ReplacesIn, nodes]
  | .scalarSubquery q _ => by simp [ExprReplaced, mapSubqueries, substColumns, ReplacesIn, nodes]
  | .existsSubquery q _ _ => by simp [ExprReplaced, mapSubqueries, substColumns, ReplacesIn, nodes]
  | .aliasExpr e _ _ => by
    have ih := @exprReplaced_iff e
    simp only [mapSubqueries, substColumns, ExprReplaced, ih]
    simp [ReplacesIn, nodes]
  | .inSubquery e q _ _ | .setComparison e q _ _ _ => by
    have ih := @exprReplaced_iff e
    simp only [mapSubqueries, substColumns, ExprReplaced, ih]
    simp [ReplacesIn, nodes, or_imp, forall_and, and_comm, and_assoc, and_left_comm]
  | .op _ args => by
    have ih := @exprsReplaced_iff args
    simp only [mapSubqueries, substColumns, ExprReplaced, ih]
    simp only [ReplacesIn, nodes, nodesList_eq_flatMap, mem_cons, reduceCtorEq, false_or,
      mem_flatMap, embeds_op]
    constructor
    · intro h
      exact ⟨fun c ⟨e, he, hc⟩ => (h e he).1 c hc, fun c ⟨e, he, hc⟩ => (h e he).2.1 c hc,
        fun q ⟨e, he, hq⟩ => (h e he).2.2 q hq⟩
    · intro h e he
      exact ⟨fun c hc => h.1 c ⟨e, he, hc⟩, fun c hc => h.2.1 c ⟨e, he, hc⟩, fun q hq => h.2.2 q ⟨e, he, hq⟩⟩

theorem exprsReplaced_iff : ∀ {es},
    ExprsReplaced governed own around inner es (substColumnsList σ (mapSubqueriesList f es)) ↔
      ∀ e ∈ es, ReplacesIn governed own around inner σ f e
  | [] => by simp [ExprsReplaced, mapSubqueriesList, substColumnsList]
  | e :: es => by
    simp [ExprsReplaced, mapSubqueriesList, substColumnsList, @exprReplaced_iff e, @exprsReplaced_iff es]

end

theorem exprsReplaced_map {g} : ∀ {es},
    ExprsReplaced governed own around inner es (es.zipWith withoutAliasBack (es.map g)) ↔
      ∀ e ∈ es, ExprReplaced governed own around inner e (withoutAliasBack e (g e))
  | [] => by simp [ExprsReplaced]
  | e :: es => by simp [ExprsReplaced, @exprsReplaced_map g es]

end Substitution

theorem allReplaced_self (h : ∀ scope c, ¬ governed scope c) (p) :
    ∀ outer, AllReplaced governed outer p p := by
  refine LogicalPlan.induct ?_ p
  intro p hin hex outer
  have hif := @allReplaced_iff governed outer p (p.expressions.map id) (p.inputs.map id) (length_map _)
    (length_map _)
  have hs : (p.withNewExpressions (p.expressions.map id)).withNewInputs (p.inputs.map id) = p := by simp
  rw [exprsReplaced_map, inputsReplaced_map, hs] at hif
  refine hif.mpr ⟨fun e he => ?_, fun i hi => hin i hi outer⟩
  have hid : ReplacesIn governed (MustReplace governed p (scopeOf p)) (MustReplace governed p outer) (scopeOf p ++ outer)
      .column id e :=
    ⟨fun c _ hc => absurd hc.2 (h _ c), fun c _ hc => h _ c hc.2, fun q hq => hex e he q hq _⟩
  have he' := exprReplaced_iff.mpr hid
  rw [substColumns_column, ← withoutAliasBack_mapSubqueries, mapSubqueries_id] at he'
  exact he'

end Replaced

/-! ## What masking replaces -/

/-- The alias that gives back a name is taken off again; an alias that was there keeps its name. -/
theorem withoutAliasBack_aliasBack {schemaName}
    (hname : ∀ e e' relation name, schemaName (.aliasExpr e relation name) = schemaName (.aliasExpr e' relation name))
    {f σ e} (he : ∀ c, e ≠ .column c) :
    withoutAliasBack e (aliasBack schemaName (e.mapSubqueries f) ((e.mapSubqueries f).substColumns σ)) =
      (e.mapSubqueries f).substColumns σ := by
  unfold aliasBack
  cases e with
  | column c => exact absurd rfl (he c)
  | aliasExpr e relation name =>
    simp only [mapSubqueries, substColumns]
    rw [if_pos (hname _ _ relation name)]
    rfl
  | outerReferenceColumn | literal | op | scalarSubquery | inSubquery | setComparison | existsSubquery =>
    simp only [mapSubqueries, substColumns]
    split <;> rfl

theorem replacement_eq_column_iff {lookup fuel e c}
    (hav : Available (maskHit lookup fuel) e) (hc : .column c ∈ e.nodes) :
    replacement (maskHit lookup fuel) c = .column c ↔ ∀ m, lookup c = some m → m = .column c := by
  cases hm : lookup c with
  | none => simp [replacement_of_lookup_none hm]
  | some m =>
    simp only [Option.some.injEq, forall_eq']
    rcases replacement_of_lookup hav hc hm with ⟨c', rfl, hr⟩ | ⟨hne, σ, hr⟩
    · rw [hr]
    · rw [hr]
      cases m with
      | column c' => exact absurd rfl (hne c')
      | outerReferenceColumn | literal | aliasExpr | op | scalarSubquery | inSubquery | setComparison
      | existsSubquery => simp [substColumns]

section MaskedExpr

variable {governed : Scope → Column → Prop} {own around : Column → Prop} {inner : Scope}
  {f : LogicalPlan → LogicalPlan} {schemaName : Expr → String} {fuel : Nat} {lookup : Column → Option Expr}

/-- A mask that is the column itself shows only at the top of an expression, as an alias. -/
theorem exprReplaced_maskedExpr_iff
    (hname : ∀ e e' relation name, schemaName (.aliasExpr e relation name) = schemaName (.aliasExpr e' relation name))
    {e} (hav : (∃ c, e = .column c) ∨ Available (maskHit lookup fuel) e) : ExprReplaced governed own around inner e
        (withoutAliasBack e (maskedExpr schemaName fuel lookup (e.mapSubqueries f))) ↔
      (∀ c, .column c ∈ e.nodes → own c → ∃ m, lookup c = some m ∧ (m = .column c → e = .column c)) ∧
        (∀ c, .outerReferenceColumn c ∈ e.nodes → ¬ around c) ∧ ∀ q, e.Embeds q → AllReplaced governed inner q
    (f q) := by
  by_cases hco : ∃ c, e = .column c
  · obtain ⟨c, rfl⟩ := hco
    simp only [mapSubqueries, withoutAliasBack, maskedExpr, ExprReplaced, nodes]
    cases hm : lookup c <;> simp [hm]
  · have hav := hav.resolve_left hco
    have hne : ∀ c, e ≠ .column c := not_exists.mp hco
    have hne' : ∀ c, e.mapSubqueries f ≠ .column c := fun c h => hne c (mapSubqueries_eq_column.mp h)
    rw [maskedExpr_of_ne_column hne', withoutAliasBack_aliasBack hname hne, exprReplaced_iff, ReplacesIn]
    refine and_congr_left fun _ => forall₂_congr fun c hc => imp_congr_right fun _ => ?_
    rw [Ne, replacement_eq_column_iff hav hc]
    simp [hne c]

end MaskedExpr

namespace ColumnMaskingEnforcer

variable {schemaName : Expr → String} {fuel : Nat} {E : ColumnMaskingEnforcer} {id : Identity}

/-- A mask on the column, under one of the keys of the table, is for the session. -/
def HasMask (E : ColumnMaskingEnforcer) (id : Identity) (t : TableReference) (column : String) : Prop :=
  ∃ cand ∈ E.candidateRefs t, ∃ r ∈ E.masks.rulesAt (cand, column), r.applies id

/-- The reference is one to a column of a table that has a mask for the session. -/
def Governed (E : ColumnMaskingEnforcer) (id : Identity) (columnsOf : TableReference → List String) (scope : Scope)
    (c : Column) : Prop :=
  ∃ t, c.ResolvesTo columnsOf scope t ∧ E.HasMask id t c.name

/-- The reference is qualified, and a mask is on its qualifier or on the table that is the last in the plan to
be given the qualifier as an alias. -/
def FoundBy (E : ColumnMaskingEnforcer) (id : Identity) (root : LogicalPlan) (c : Column) : Prop :=
  ∃ rel, c.relation = some rel ∧
    (E.HasMask id rel c.name ∨ ∃ t, (aliasTargets root).lookup rel = some t ∧ E.HasMask id t c.name)

theorem exists_maskOf_iff {root c} : (∃ m, E.maskOf (aliasTargets root) id c = some m) ↔ E.FoundBy id root c := by
  unfold maskOf FoundBy
  cases c.relation with
  | none => simp
  | some rel =>
    rw [← Option.ne_none_iff_exists', Ne, lookupMask_eq_none_iff]
    unfold candidates HasMask
    cases hr : (aliasTargets root).lookup rel <;> simp [hr, or_and_right, exists_or]

/-- The masks of all references of the node that need one are found: each is to a relation in sight below the
node, none to one around the subquery. A mask that is the reference itself shows only as a whole expression. -/
def KnownAt (E : ColumnMaskingEnforcer) (id : Identity) (columnsOf : TableReference → List String) (root : LogicalPlan)
    (outer : Scope) (node : LogicalPlan) : Prop :=
  readsForItself node = false → ∀ e ∈ node.expressions,
    (∀ c, .column c ∈ e.nodes → E.Governed id columnsOf (scopeOf node) c → E.FoundBy id root c ∧
      (E.maskOf (aliasTargets root) id c = some (.column c) → e = .column c)) ∧
    ∀ c, .outerReferenceColumn c ∈ e.nodes → ¬ E.Governed id columnsOf outer c

theorem exprReplaced_maskedAt_iff
    (hname : ∀ e e' relation name, schemaName (.aliasExpr e relation name) = schemaName (.aliasExpr e' relation name))
    {governed act root node scope around inner e}
    (hok : ∃ t, E.maskAt schemaName fuel id root node (descended act e) = .ok t) :
    ExprReplaced governed (MustReplace governed node scope) (MustReplace governed node around) inner e
        (withoutAliasBack e (E.maskedAt schemaName fuel id root node (descended act e))) ↔
      (readsForItself node = false →
        (∀ c, .column c ∈ e.nodes → governed scope c → E.FoundBy id root c ∧
          (E.maskOf (aliasTargets root) id c = some (.column c) → e = .column c)) ∧
        ∀ c, .outerReferenceColumn c ∈ e.nodes → ¬ governed around c) ∧
      ∀ q, e.Embeds q → AllReplaced governed inner q (rewritten act q q) := by
  have hav := maskAt_descended_ok_iff.mp hok
  unfold maskedAt
  cases hr : readsForItself node with
  | true =>
    -- nothing must be replaced here but in the subqueries
    have hs := @exprReplaced_iff governed (MustReplace governed node scope) (MustReplace governed node around)
      inner .column (fun q => rewritten act q q) e
    rw [substColumns_column] at hs
    rw [if_pos rfl, descended, withoutAliasBack_mapSubqueries, hs]
    simp [ReplacesIn, MustReplace, hr]
  | false =>
    simp only [hr, Bool.false_eq_true, false_or] at hav
    rw [if_neg Bool.false_ne_true, descended, exprReplaced_maskedExpr_iff hname hav]
    simp only [MustReplace, hr, true_and, true_imp_iff, and_assoc]
    refine and_congr_left fun _ => forall₃_congr fun c _ _ => ?_
    rw [← exists_maskOf_iff]
    constructor
    · rintro ⟨m, hm, hse⟩
      refine ⟨⟨m, hm⟩, fun h => hse ?_⟩
      exact Option.some.inj (hm.symm.trans h)
    · rintro ⟨⟨m, hm⟩, hse⟩
      exact ⟨m, hm, fun h => hse (h ▸ hm)⟩

/-- What a rewritten plan must have replaced is what its nodes must. -/
theorem allReplaced_rewritten_iff
    (hname : ∀ e e' relation name, schemaName (.aliasExpr e relation name) = schemaName (.aliasExpr e' relation name))
    {columnsOf} (p) : ∀ root outer, (∃ r, rewriteTree (E.visit schemaName fuel id) root p = .ok r) →
      (AllReplaced (E.Governed id columnsOf) outer p (rewritten (E.visit schemaName fuel id) root p) ↔
        EachNode enterScope (E.KnownAt id columnsOf) root outer p) := by
  refine LogicalPlan.induct ?_ p
  intro p ihinputs ihexprs root outer hok
  obtain ⟨hq, he, hi⟩ := expressionWise_visit.rewriteTree_ok_iff.mp hok
  obtain ⟨r, hr⟩ := hok
  rw [rewritten_visit_eq hr, allReplaced_iff (length_map _) (length_map _), inputsReplaced_map,
    exprsReplaced_map, eachNode_iff]
  constructor
  · rintro ⟨hes, his⟩
    have hes := fun e hm => (exprReplaced_maskedAt_iff hname (he e hm)).mp (hes e hm)
    refine ⟨fun hre e hm => (hes e hm).1 hre, fun i hm => ?_, fun e hm q hq' => ?_⟩
    · exact (ihinputs i hm root outer (hi i hm)).mp (his i hm)
    · exact (ihexprs e hm q hq' q _ (hq e hm q hq')).mp ((hes e hm).2 q hq')
  · rintro ⟨hk, his, hqs⟩
    refine ⟨fun e hm => (exprReplaced_maskedAt_iff hname (he e hm)).mpr ?_, fun i hm => ?_⟩
    · refine ⟨fun hre => hk hre e hm, fun q hq' => ?_⟩
      exact (ihexprs e hm q hq' q _ (hq e hm q hq')).mpr (hqs e hm q hq')
    · exact (ihinputs i hm root outer (hi i hm)).mpr (his i hm)

/-! ## The rewrite -/

theorem hasMask_of_isEmpty (h : E.masks.entries.isEmpty) (t) (column) :
    ¬ E.HasMask id t column := by
  rintro ⟨cand, -, r, hr, -⟩
  rw [RuleMap.rulesAt_of_isEmpty h] at hr
  cases hr

end ColumnMaskingEnforcer

end Dataglot
