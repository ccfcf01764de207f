/-
Masks and row filters one after the other, in both orders.

Each of the two rewrites goes into the subqueries of expressions. So the masks reach a subquery in a
predicate if the row filters have put the predicate in before, and the row filters reach a subquery in
a mask if the masks came first. Beyond that the orders agree: a filter is put around the same scans
under the same aliases, and the masks leave what a `Filter` itself reads alone.
-/
import Dataglot.DataFusion.Outline
import Dataglot.Policy.Enforcer
import Dataglot.Policy.MaskOnce
import Dataglot.Policy.RowFilterFacts

namespace Dataglot
open DataFusion LogicalPlan ColumnMaskingEnforcer Expr RowFilterEnforcer Enforcer List

/-- DataFusion types predicates and names fields by the schemas of the plans it sees. -/
structure Engine.BySchema (D : Engine) : Prop where
  typing : ∀ predicate p q, p.outline = q.outline → D.typing predicate p = D.typing predicate q
  names : ∀ e, D.schemaName (e.mapSubqueries LogicalPlan.outline) = D.schemaName e

/-! ## Where the row filters come to -/

section Reached

variable (gov : TableReference → Option Expr)

/-- The predicate of a node that is a governed scan, spelled for its alias if it has one. -/
def guardAt : LogicalPlan → Option Expr
  | .tableScan t _ _ _ => gov t
  | .subqueryAlias name (.tableScan t _ _ _) => (gov t).map fun p => requalifyColumns p name
  | _ => none

/-- `Φ` holds at every node that the row filters come to. Under a governed alias they do not go on. -/
inductive EachReached (Φ : (root node : LogicalPlan) → Prop) : LogicalPlan → LogicalPlan → Prop
  | intro {root p : LogicalPlan} (here : Φ root p)
      (inputs : guardAt gov p = none → ∀ i ∈ p.inputs, EachReached Φ root i)
      (subqueries : ∀ e ∈ p.expressions, ∀ q, e.Embeds q → EachReached Φ q q) : EachReached Φ root p

variable {gov} {Φ Ψ : (root node : LogicalPlan) → Prop} {root p : LogicalPlan}

theorem eachReached_iff : EachReached gov Φ root p ↔ Φ root p ∧
    (guardAt gov p = none → ∀ i ∈ p.inputs, EachReached gov Φ root i) ∧
      ∀ e ∈ p.expressions, ∀ q, e.Embeds q → EachReached gov Φ q q := by
  constructor
  · rintro ⟨here, hi, hs⟩
    exact ⟨here, hi, hs⟩
  · rintro ⟨here, hi, hs⟩
    exact .intro here hi hs

theorem EachReached.imp (h : ∀ root p, Φ root p → Ψ root p) (hp : EachReached gov Φ root p) :
    EachReached gov Ψ root p := by
  induction hp with
  | intro here _ _ hi hs => exact .intro (h _ _ here) hi hs

theorem EachReached.and (hp : EachReached gov Φ root p) (hp' : EachReached gov Ψ root p) :
    EachReached gov (fun root p => Φ root p ∧ Ψ root p) root p := by
  induction hp with
  | intro here _ _ ihinputs ihsub =>
    obtain ⟨here', hi', hs'⟩ := eachReached_iff.mp hp'
    exact .intro ⟨here, here'⟩ (fun h i hi => ihinputs h i hi (hi' h i hi))
      fun e he q hq => ihsub e he q hq (hs' e he q hq)

theorem guardAt_of_not_isScan {p} (h : ¬ IsScan p) : guardAt gov p = none := by
  cases p with
  | tableScan => exact absurd (.bare ..) h
  | filter | projection | node => rfl
  | subqueryAlias name input =>
    cases input with
    | tableScan => exact absurd (.aliased ..) h
    | filter | projection | node | subqueryAlias => rfl

variable (p : LogicalPlan)

theorem guardPlan_eq : guardPlan gov false p = match guardAt gov p with
    | some predicate => .filter predicate.unaliasNested (p.withNewExpressions (guardExprs gov false p.expressions))
    | none => (p.withNewExpressions (guardExprs gov false p.expressions)).withNewInputs
        (p.inputs.map (guardPlan gov false)) := by
  by_cases hs : IsScan p
  · cases hs with
    | bare t projection filters fetch =>
      simp only [guardPlan, guardAt]
      cases gov t <;> rfl
    | aliased name t projection filters fetch =>
      simp only [guardPlan, guardAt]
      cases ht : gov t with
      | none =>
        simp [guardScan, withNewExpressions, withNewInputs, inputs, guardPlan, ht]
      | some predicate => rfl
  · rw [guardPlan_of_not_isScan hs, guardAt_of_not_isScan hs]

theorem outline_guardPlan : (guardPlan gov false p).outline = p.outline := by
  refine induct ?_ p
  intro p hi _
  rw [guardPlan_eq]
  split
  · simp [outline]
  · rw [outline_withNewInputs, outline_withNewExpressions]
    rw [inputs_withNewExpressions, map_map]
    exact map_congr_left hi

theorem aliasDecls_guardPlan : aliasDecls (guardPlan gov false p) = aliasDecls p := by
  refine induct ?_ p
  intro p hin _
  cases p with
  | tableScan t => cases ht : gov t <;> simp [guardPlan, guardScan, ht, aliasDecls]
  | filter _ input | projection _ input _ => exact hin input (mem_singleton_self _)
  | node _ _ _ inputs _ =>
    rw [guardPlan, guardPlans_eq]
    exact aliasDeclsList_map hin
  | subqueryAlias name input =>
    have hi := hin input (mem_singleton_self _)
    cases input with
    | tableScan t => cases ht : gov t <;> simp [guardPlan, guardScan, ht, aliasDecls]
    | filter | projection | node => exact hi
    | subqueryAlias name' input' =>
      have hne : ∀ t projection filters fetch,
          subqueryAlias name' input' ≠ .tableScan t projection filters fetch := by simp
      have hs : scannedTable (guardPlan gov false (.subqueryAlias name' input')) = none := by
        cases hg : guardPlan gov false (.subqueryAlias name' input') with
        | tableScan => exact absurd hg (guardPlan_ne_tableScan hne _ _ _ _)
        | filter | projection | node | subqueryAlias => rfl
      rw [guardPlan_subqueryAlias hne, aliasDecls_subqueryAlias, hs]
      exact hi

theorem aliasTargets_guardPlan : aliasTargets (guardPlan gov false p) = aliasTargets p := by
  rw [aliasTargets, aliasTargets, collectAliasTargets_eq, collectAliasTargets_eq, aliasDecls_guardPlan]

end Reached

/-! ## When the masks come to an end -/

section Masks

variable (schemaName : Expr → String) (fuel : Nat) (E : ColumnMaskingEnforcer) (id : Identity)
  (gov : TableReference → Option Expr)

def MasksEnd (root p : LogicalPlan) : Prop := ∃ r, rewriteTree (E.visit schemaName fuel id) root p = .ok r

abbrev masked (root p : LogicalPlan) : LogicalPlan := rewritten (E.visit schemaName fuel id) root p

/-- What stands for a column of an expression after the masks. -/
def putIn (lookup : Column → Option Expr) (e : Expr) (c : Column) : Expr :=
  match e with
  | .column _ => (lookup c).getD (.column c)
  | _ => replacement (maskHit lookup fuel) c

variable {schemaName fuel E id gov} {root root' p : LogicalPlan}

theorem masksEnd_iff : MasksEnd schemaName fuel E id root p ↔
    (∀ e ∈ p.expressions, ∀ q, e.Embeds q → MasksEnd schemaName fuel E id q q) ∧
      (∀ e ∈ p.expressions, readsForItself p ∨ (∃ c, e = .column c) ∨
        Available (maskHit (E.maskOf (aliasTargets root) id) fuel) e) ∧
      ∀ i ∈ p.inputs, MasksEnd schemaName fuel E id root i := by
  rw [MasksEnd, expressionWise_visit.rewriteTree_ok_iff]
  simp only [maskAt_descended_ok_iff]
  rfl

theorem masked_eq (h : MasksEnd schemaName fuel E id root p) : masked schemaName fuel E id root p =
    (p.withNewExpressions (p.expressions.map fun e =>
        E.maskedAt schemaName fuel id root p (descended (E.visit schemaName fuel id) e))).withNewInputs
      (p.inputs.map (masked schemaName fuel E id root)) := by
  obtain ⟨r, hr⟩ := h
  exact rewritten_visit_eq hr

theorem masksEnd_filter {predicate input} : MasksEnd schemaName fuel E id root (.filter predicate input) ↔
      (∀ q, predicate.Embeds q → MasksEnd schemaName fuel E id q q) ∧ MasksEnd schemaName fuel E id root input := by
  rw [masksEnd_iff]
  simp [expressions, inputs, readsForItself]

theorem masked_filter {predicate input} (h : MasksEnd schemaName fuel E id root (.filter predicate input)) :
    masked schemaName fuel E id root (.filter predicate input) =
      .filter (descended (E.visit schemaName fuel id) predicate) (masked schemaName fuel E id root input) := by
  rw [masked_eq h]
  simp [expressions, inputs, withNewExpressions, withNewInputs,
    maskedAt, readsForItself]

theorem rewriteTree_visit_congr (h : aliasTargets root' = aliasTargets root) :
    rewriteTree (E.visit schemaName fuel id) root' p = rewriteTree (E.visit schemaName fuel id) root p := by
  refine rewriteTree_congr_root ?_ p
  funext node
  rw [ColumnMaskingEnforcer.visit, h]
  rfl

theorem masksEnd_guarded (h : aliasTargets root' = aliasTargets root) {is}
    (his : is.length = p.inputs.length) : MasksEnd schemaName fuel E id root'
      ((p.withNewExpressions (guardExprs gov false p.expressions)).withNewInputs is) ↔
    (∀ e ∈ p.expressions, ∀ q, e.Embeds q →
        MasksEnd schemaName fuel E id (guardPlan gov false q) (guardPlan gov false q)) ∧
      (∀ e ∈ p.expressions, readsForItself p ∨ (∃ c, e = .column c) ∨
        Available (maskHit (E.maskOf (aliasTargets root) id) fuel) e) ∧
      ∀ i ∈ is, MasksEnd schemaName fuel E id root' i := by
  have hm : guardExprs gov false p.expressions = p.expressions.map (mapSubqueries (guardPlan gov false)) := by
    rw [guardExprs_eq, mapSubqueriesList_eq_map]
  rw [masksEnd_iff, inputs_withNewInputs (by rwa [inputs_withNewExpressions]),
    expressions_withNewInputs, expressions_withNewExpressions (by rw [hm, length_map]),
    hm, h, readsForItself_withNewInputs,
    readsForItself_withNewExpressions]
  simp only [forall_mem_map, embeds_mapSubqueries, forall_exists_index, and_imp, forall_apply_eq_imp_iff₂,
    mapSubqueries_eq_column, Available, column_mem_nodes_mapSubqueries]

/-- The masks come to an end over the predicates that the row filters put in at the node. -/
def PredicatesEnd (schemaName : Expr → String) (fuel : Nat) (E : ColumnMaskingEnforcer) (id : Identity)
    (gov : TableReference → Option Expr) (_ node : LogicalPlan) : Prop :=
  ∀ predicate, guardAt gov node = some predicate → ∀ q, predicate.Embeds q → MasksEnd schemaName fuel E id q q

/-- Over the guarded plan the masks come to the same nodes, and to the predicates. -/
theorem masksEnd_guardPlan_iff (p) : ∀ {root root'}, aliasTargets root' = aliasTargets root →
    (MasksEnd schemaName fuel E id root' (guardPlan gov false p) ↔ MasksEnd schemaName fuel E id root p ∧
      EachReached gov (PredicatesEnd schemaName fuel E id gov) root p) := by
  induction p using induct with
  | step =>
    intro p his hex root root' h
    have hsu : (∀ e ∈ p.expressions, ∀ q, e.Embeds q →
          MasksEnd schemaName fuel E id (guardPlan gov false q) (guardPlan gov false q)) ↔
        (∀ e ∈ p.expressions, ∀ q, e.Embeds q → MasksEnd schemaName fuel E id q q) ∧
          ∀ e ∈ p.expressions, ∀ q, e.Embeds q → EachReached gov (PredicatesEnd schemaName fuel E id gov) q q := by
      simp only [← forall_and]
      exact forall₂_congr fun e he => forall₂_congr fun q hq => hex e he q hq (aliasTargets_guardPlan q)
    rw [guardPlan_eq, @masksEnd_iff schemaName fuel E id root p, eachReached_iff]
    cases hg : guardAt gov p with
    | none =>
      have hin : (∀ i ∈ p.inputs.map (guardPlan gov false), MasksEnd schemaName fuel E id root' i) ↔
          (∀ i ∈ p.inputs, MasksEnd schemaName fuel E id root i) ∧
            ∀ i ∈ p.inputs, EachReached gov (PredicatesEnd schemaName fuel E id gov) root i := by
        simp only [forall_mem_map, ← forall_and]
        exact forall₂_congr fun i hi => his i hi h
      have hh : PredicatesEnd schemaName fuel E id gov root p := by
        intro predicate hp
        rw [hg] at hp
        cases hp
      simp only [masksEnd_guarded h (length_map _), hsu, hin, true_imp_iff, hh, true_and]
      constructor
      · rintro ⟨⟨hem, hqu⟩, hen, hm, hb⟩
        exact ⟨⟨hem, hen, hm⟩, hb, hqu⟩
      · rintro ⟨⟨hem, hen, hm⟩, hb, hqu⟩
        exact ⟨⟨hem, hqu⟩, hen, hm, hb⟩
    | some predicate =>
      have hs : p.withNewExpressions (guardExprs gov false p.expressions) =
          (p.withNewExpressions (guardExprs gov false p.expressions)).withNewInputs p.inputs := by
        rw [← inputs_withNewExpressions p, withNewInputs_self]
      have hin : (∀ i ∈ p.inputs, MasksEnd schemaName fuel E id root' i) ↔
          ∀ i ∈ p.inputs, MasksEnd schemaName fuel E id root i :=
        forall₂_congr fun i _ => by rw [MasksEnd, rewriteTree_visit_congr h]; rfl
      have hh : PredicatesEnd schemaName fuel E id gov root p ↔
          ∀ q, predicate.Embeds q → MasksEnd schemaName fuel E id q q := by
        simp [PredicatesEnd, hg]
      simp only [masksEnd_filter, embeds_unaliasNested]
      rw [hs, masksEnd_guarded h rfl, hsu, hin, hh]
      simp only [reduceCtorEq, false_imp_iff, true_and]
      constructor
      · rintro ⟨hpr, ⟨hem, hqu⟩, hen, hm⟩
        exact ⟨⟨hem, hen, hm⟩, hpr, hqu⟩
      · rintro ⟨⟨hem, hen, hm⟩, hpr, hqu⟩
        exact ⟨hpr, ⟨hem, hqu⟩, hen, hm⟩

theorem outline_masked (p) : ∀ {root}, MasksEnd schemaName fuel E id root p →
    (masked schemaName fuel E id root p).outline = p.outline := by
  induction p using induct with
  | step =>
    intro p hin _ root h
    rw [masked_eq h, outline_withNewInputs, outline_withNewExpressions]
    rw [inputs_withNewExpressions, map_map]
    exact map_congr_left fun i hi => hin i hi ((masksEnd_iff.mp h).2.2 i hi)

end Masks

/-! ## One plan from both orders -/

section Both

variable {schemaName : Expr → String} {fuel : Nat} {E : ColumnMaskingEnforcer} {id : Identity}
  {gov : TableReference → Option Expr} {lookup : Column → Option Expr}

/-- The guard commutes with the masks in a plan. -/
def Swaps (schemaName : Expr → String) (fuel : Nat) (E : ColumnMaskingEnforcer) (id : Identity)
    (gov : TableReference → Option Expr) (root root' p : LogicalPlan) : Prop :=
  guardPlan gov false (masked schemaName fuel E id root p) = masked schemaName fuel E id root' (guardPlan gov false p)

theorem putIn_of_ne_column {e} (h : ∀ c, e ≠ .column c) (c) :
    putIn fuel lookup e c = replacement (maskHit lookup fuel) c := by
  cases e with
  | column c' => exact absurd rfl (h c')
  | outerReferenceColumn | literal | aliasExpr | op | scalarSubquery | inSubquery | setComparison
  | existsSubquery => rfl

theorem guardExpr_maskedExpr_column_iff (c) :
    guardExpr gov false (maskedExpr schemaName fuel lookup (.column c)) =
        maskedExpr schemaName fuel lookup (.column c) ↔
      ∀ q, (putIn fuel lookup (.column c) c).Embeds q → guardPlan gov false q = q := by
  rw [← guardExpr_eq_self_iff]
  simp only [maskedExpr, putIn]
  cases lookup c with
  | none => rfl
  | some mask => simp [guardExpr]

theorem guardExpr_maskedExpr_iff (hn : ∀ e, schemaName (e.mapSubqueries outline) = schemaName e)
    {f g e} (hf : ∀ q, e.Embeds q → (f q).outline = q.outline) (hg : ∀ q, e.Embeds q → (g q).outline = q.outline) :
    guardExpr gov false (maskedExpr schemaName fuel lookup (e.mapSubqueries f)) =
        maskedExpr schemaName fuel lookup (e.mapSubqueries g) ↔
      (∀ q, e.Embeds q → guardPlan gov false (f q) = g q) ∧
        ∀ c, .column c ∈ e.nodes → ∀ q, (putIn fuel lookup e c).Embeds q → guardPlan gov false q = q := by
  by_cases hc : ∃ c, e = .column c
  · obtain ⟨c, rfl⟩ := hc
    simp only [mapSubqueries, guardExpr_maskedExpr_column_iff]
    simp [nodes]
  have hne : ∀ c, e ≠ .column c := not_exists.mp hc
  have hne' : ∀ f c, e.mapSubqueries f ≠ .column c := fun f c h => hne c (mapSubqueries_eq_column.mp h)
  rw [maskedExpr_of_ne_column (hne' f), maskedExpr_of_ne_column (hne' g)]
  simp only [putIn_of_ne_column hne]
  generalize replacement (maskHit lookup fuel) = σ
  have hname : ∀ {e e'}, e.mapSubqueries outline = e'.mapSubqueries outline →
      schemaName e = schemaName e' := fun h => by rw [← hn, h, hn]
  have hfg : (e.mapSubqueries f).mapSubqueries outline =
      (e.mapSubqueries g).mapSubqueries outline := by
    rw [mapSubqueries_mapSubqueries, mapSubqueries_mapSubqueries, mapSubqueries_eq_iff]
    exact fun q hq => (hf q hq).trans (hg q hq).symm
  have hs : schemaName ((e.mapSubqueries f).substColumns σ) = schemaName ((e.mapSubqueries g).substColumns σ) :=
    hname (by rw [mapSubqueries_substColumns, hfg, mapSubqueries_substColumns])
  have hb : guardExpr gov false ((e.mapSubqueries f).substColumns σ) = (e.mapSubqueries g).substColumns σ ↔
      (∀ q, e.Embeds q → guardPlan gov false (f q) = g q) ∧
        ∀ c, .column c ∈ e.nodes → ∀ q, (σ c).Embeds q → guardPlan gov false q = q := by
    rw [guardExpr_eq, mapSubqueries_substColumns, mapSubqueries_mapSubqueries,
      substColumns_mapSubqueries_eq_iff]
    simp only [← guardExpr_eq, guardExpr_eq_self_iff]
  rw [← hb, aliasBack, aliasBack, hname hfg, hs]
  split_ifs with hsame
  · rfl
  · simp [guardExpr]

variable {root root' p : LogicalPlan}

theorem guardExpr_maskedAt_iff (hn : ∀ e, schemaName (e.mapSubqueries outline) = schemaName e)
    (ha : aliasTargets root' = aliasTargets root) {node node'}
    (hr : readsForItself node' = readsForItself node) {e}
    (he : ∀ q, e.Embeds q → MasksEnd schemaName fuel E id q q ∧
      MasksEnd schemaName fuel E id (guardPlan gov false q) (guardPlan gov false q)) :
    guardExpr gov false (E.maskedAt schemaName fuel id root node (descended (E.visit schemaName fuel id) e)) =
        E.maskedAt schemaName fuel id root' node' (descended (E.visit schemaName fuel id) (guardExpr gov false e)) ↔
      (∀ q, e.Embeds q → Swaps schemaName fuel E id gov q (guardPlan gov false q) q) ∧
        (readsForItself node = false → ∀ c, .column c ∈ e.nodes →
          ∀ q, (putIn fuel (E.maskOf (aliasTargets root) id) e c).Embeds q → guardPlan gov false q = q) := by
  have hd : descended (E.visit schemaName fuel id) (guardExpr gov false e) =
      e.mapSubqueries fun q => masked schemaName fuel E id (guardPlan gov false q) (guardPlan gov false q) := by
    rw [guardExpr_eq, descended, mapSubqueries_mapSubqueries]
  rw [hd, maskedAt, maskedAt, hr, ha]
  cases readsForItself node with
  | true =>
    simp only [if_true, reduceCtorEq, false_imp_iff, and_true]
    rw [guardExpr_eq, descended, mapSubqueries_mapSubqueries, mapSubqueries_eq_iff]
    rfl
  | false =>
    simp only [Bool.false_eq_true, if_false, true_imp_iff]
    refine guardExpr_maskedExpr_iff hn (fun q hq => outline_masked q (he q hq).1) fun q hq => ?_
    rw [outline_masked _ (he q hq).2, outline_guardPlan]

theorem guardAt_masked (h : MasksEnd schemaName fuel E id root p) :
    guardAt gov (masked schemaName fuel E id root p) = guardAt gov p := by
  cases p with
  | tableScan | filter | projection | node =>
    rw [masked_eq h]
    rfl
  | subqueryAlias name input =>
    have hi := (masksEnd_iff.mp h).2.2 input (by simp [inputs])
    rw [masked_eq h]
    simp only [inputs, map_cons, map_nil, masked_eq hi]
    cases input <;> rfl

theorem guardExprs_eq_map (es) : guardExprs gov false es = es.map (guardExpr gov false) := by
  rw [guardExprs_eq, mapSubqueriesList_eq_map]
  exact map_congr_left fun e _ => (guardExpr_eq e).symm

/-- The predicates of the node are left alone by the masks, and the masks that are put in at the node by the row
filters. -/
def Unmoved (schemaName : Expr → String) (fuel : Nat) (E : ColumnMaskingEnforcer) (id : Identity)
    (gov : TableReference → Option Expr) (root node : LogicalPlan) : Prop :=
  (∀ predicate, guardAt gov node = some predicate → ∀ q, predicate.Embeds q → masked schemaName fuel E id q q = q) ∧
    (readsForItself node = false → ∀ e ∈ node.expressions, ∀ c, .column c ∈ e.nodes →
      ∀ q, (putIn fuel (E.maskOf (aliasTargets root) id) e c).Embeds q → guardPlan gov false q = q)

theorem guardPlan_masked (h : MasksEnd schemaName fuel E id root p) :
    guardPlan gov false (masked schemaName fuel E id root p) =
      let node := p.withNewExpressions (p.expressions.map fun e =>
        guardExpr gov false (E.maskedAt schemaName fuel id root p (descended (E.visit schemaName fuel id) e)))
      match guardAt gov p with
      | some predicate =>
        .filter predicate.unaliasNested (node.withNewInputs (p.inputs.map (masked schemaName fuel E id root)))
      | none =>
        node.withNewInputs (p.inputs.map fun i => guardPlan gov false (masked schemaName fuel E id root i)) := by
  rw [guardPlan_eq, guardAt_masked h, masked_eq h, guardExprs_eq_map,
    inputs_withNewInputs (by rw [inputs_withNewExpressions, length_map]),
    expressions_withNewInputs, expressions_withNewExpressions (length_map _), map_map,
    withNew_withNewExpressions (length_map _),
    withNew_withNewInputs (by rw [length_map, length_map]), map_map]
  rfl

theorem masked_guardPlan (h : MasksEnd schemaName fuel E id root (guardPlan gov false p)) :
    masked schemaName fuel E id root (guardPlan gov false p) =
      let node := p.withNewExpressions (p.expressions.map fun e =>
        E.maskedAt schemaName fuel id root p (descended (E.visit schemaName fuel id) (guardExpr gov false e)))
      match guardAt gov p with
      | some predicate => .filter (descended (E.visit schemaName fuel id) predicate.unaliasNested)
          (node.withNewInputs (p.inputs.map (masked schemaName fuel E id root)))
      | none =>
        node.withNewInputs (p.inputs.map fun i => masked schemaName fuel E id root (guardPlan gov false i)) := by
  have hm : ∀ node' e, readsForItself node' = readsForItself p →
      E.maskedAt schemaName fuel id root node' e = E.maskedAt schemaName fuel id root p e := by
    intro node' e hr
    rw [maskedAt, maskedAt, hr]
  have hl : (guardExprs gov false p.expressions).length = p.expressions.length := by
    rw [guardExprs_eq_map, length_map]
  rw [guardPlan_eq] at h ⊢
  cases hg : guardAt gov p with
  | none =>
    simp only [hg] at h ⊢
    rw [masked_eq h, inputs_withNewInputs (by rw [inputs_withNewExpressions, length_map]),
      expressions_withNewInputs, expressions_withNewExpressions hl,
      withNew_withNewExpressions (by rw [length_map, hl]),
      withNew_withNewInputs (by rw [length_map, length_map]), guardExprs_eq_map, map_map,
      map_map]
    simp only [Function.comp_def, hm _ _ ((readsForItself_withNewInputs _ _).trans
      (readsForItself_withNewExpressions p _))]
  | some predicate =>
    simp only [hg] at h ⊢
    have hs := (masksEnd_filter.mp h).2
    rw [masked_filter h, masked_eq hs, inputs_withNewExpressions,
      expressions_withNewExpressions hl,
      withNewExpressions_twice p _ (by rw [length_map, hl]), guardExprs_eq_map, map_map]
    simp only [Function.comp_def, hm _ _ (readsForItself_withNewExpressions p _)]

/-- The two orders give one plan exactly when neither rewrite moves what the other puts in. -/
theorem swaps_iff (hn : ∀ e, schemaName (e.mapSubqueries outline) = schemaName e) (p) :
    ∀ {root root'}, aliasTargets root' = aliasTargets root → MasksEnd schemaName fuel E id root p →
      MasksEnd schemaName fuel E id root' (guardPlan gov false p) →
      (Swaps schemaName fuel E id gov root root' p ↔ EachReached gov (Unmoved schemaName fuel E id gov) root p) := by
  induction p using induct with
  | step =>
    intro p his hex root root' ha h h'
    obtain ⟨-, hrd⟩ := (masksEnd_guardPlan_iff p ha).mp h'
    obtain ⟨-, hr, hrb⟩ := eachReached_iff.mp hrd
    obtain ⟨hs, -, hin⟩ := masksEnd_iff.mp h
    have hs' : ∀ e ∈ p.expressions, ∀ q, e.Embeds q →
        MasksEnd schemaName fuel E id (guardPlan gov false q) (guardPlan gov false q) := fun e he q hq =>
      (masksEnd_guardPlan_iff q (aliasTargets_guardPlan q)).mpr ⟨hs e he q hq, hrb e he q hq⟩
    have hes : (p.expressions.map fun e =>
          guardExpr gov false (E.maskedAt schemaName fuel id root p (descended (E.visit schemaName fuel id) e))) =
        (p.expressions.map fun e =>
          E.maskedAt schemaName fuel id root' p (descended (E.visit schemaName fuel id) (guardExpr gov false e))) ↔
        (∀ e ∈ p.expressions, ∀ q, e.Embeds q → EachReached gov (Unmoved schemaName fuel E id gov) q q) ∧
          (readsForItself p = false → ∀ e ∈ p.expressions, ∀ c, .column c ∈ e.nodes →
            ∀ q, (putIn fuel (E.maskOf (aliasTargets root) id) e c).Embeds q → guardPlan gov false q = q) := by
      rw [map_inj_left]
      have her := fun e he => guardExpr_maskedAt_iff hn ha (@rfl _ (readsForItself p))
        fun q hq => ⟨hs e he q hq, hs' e he q hq⟩
      rw [forall₂_congr her]
      have hq : ∀ e ∈ p.expressions, ∀ q, e.Embeds q → (Swaps schemaName fuel E id gov q (guardPlan gov false q) q ↔
          EachReached gov (Unmoved schemaName fuel E id gov) q q) := fun e he q hq =>
        hex e he q hq (aliasTargets_guardPlan q) (hs e he q hq) (hs' e he q hq)
      constructor
      · intro H
        exact ⟨fun e he q hq' => (hq e he q hq').mp ((H e he).1 q hq'), fun hre e he => (H e he).2 hre⟩
      · rintro ⟨H, H'⟩ e he
        exact ⟨fun q hq' => (hq e he q hq').mpr (H e he q hq'), fun hre => H' hre e he⟩
    rw [Swaps, guardPlan_masked h, masked_guardPlan h', eachReached_iff, Unmoved]
    cases hg : guardAt gov p with
    | none =>
      have hi : (p.inputs.map fun i => guardPlan gov false (masked schemaName fuel E id root i)) =
          (p.inputs.map fun i => masked schemaName fuel E id root' (guardPlan gov false i)) ↔
          ∀ i ∈ p.inputs, EachReached gov (Unmoved schemaName fuel E id gov) root i := by
        rw [map_inj_left]
        refine forall₂_congr fun i hi => his i hi ha (hin i hi) ?_
        exact (masksEnd_guardPlan_iff i ha).mpr ⟨hin i hi, hr hg i hi⟩
      simp only [withNew_inj (length_map _) (length_map _) (length_map _) (length_map _),
        hes, hi, reduceCtorEq, false_imp_iff, implies_true, true_imp_iff, true_and]
      constructor
      · rintro ⟨⟨hqu, hm⟩, hb⟩
        exact ⟨hm, hb, hqu⟩
      · rintro ⟨hm, hb, hqu⟩
        exact ⟨⟨hqu, hm⟩, hb⟩
    | some predicate =>
      have hi : p.inputs.map (masked schemaName fuel E id root) = p.inputs.map (masked schemaName fuel E id root') := by
        refine map_congr_left fun i _ => ?_
        rw [masked, masked, rewritten, rewritten, rewriteTree_visit_congr ha]
      have hp : predicate.unaliasNested = descended (E.visit schemaName fuel id) predicate.unaliasNested ↔
          ∀ q, predicate.Embeds q → masked schemaName fuel E id q q = q := by
        rw [eq_comm, descended, mapSubqueries_eq_self_iff]
        simp only [embeds_unaliasNested]
      simp only [withNew_inj (length_map _) (length_map _) (length_map _) (length_map _),
        hi, hp, hes, filter.injEq, and_true, reduceCtorEq, false_imp_iff, true_and, Option.some.injEq,
        forall_eq']
      constructor
      · rintro ⟨hpr, hqu, hm⟩
        exact ⟨⟨hpr, hm⟩, hqu⟩
      · rintro ⟨⟨hpr, hm⟩, hqu⟩
        exact ⟨hpr, hqu, hm⟩

end Both

/-! ## When the row filters succeed -/

section Typed

variable (T : PredicateTyping) (F : RowFilterEnforcer) (id : Identity)

/-- The row filters' predicates have their type over the scans of a plan. -/
def FiltersType (root p : LogicalPlan) : Prop := ∃ r, rewriteTree (F.visit T id) root p = .ok r

variable {T F id} {schemaName : Expr → String} {fuel : Nat} {E : ColumnMaskingEnforcer} {root root' p : LogicalPlan}

theorem filtersType_iff : FiltersType T F id root p ↔
    (∀ e ∈ p.expressions, ∀ q, e.Embeds q → FiltersType T F id q q) ∧
      match guardAt (F.resolvePredicate · id) p with
      | some predicate =>
        T predicate (p.withNewExpressions (guardExprs (F.resolvePredicate · id) false p.expressions)) = none
      | none => ∀ i ∈ p.inputs, FiltersType T F id root i := by
  by_cases hs : IsScan p
  · cases hs with
    | bare t projection filters fetch =>
      rw [FiltersType, ok_tableScan]
      refine and_congr_right fun _ => ?_
      simp only [guardAt]
      cases F.resolvePredicate t id with
      | none => simp [inputs]
      | some predicate => simp [withNewExpressions, expressions]
    | aliased name t projection filters fetch =>
      rw [FiltersType, ok_aliasedScan]
      simp only [guardAt]
      cases F.resolvePredicate t id with
      | none => simp [inputs, expressions, FiltersType]
      | some predicate => simp [withNewExpressions, expressions]
  · rw [FiltersType, ok_of_not_isScan hs, guardAt_of_not_isScan hs]
    rfl

theorem embeds_maskedAt {f e q} :
    (E.maskedAt schemaName fuel id root p (e.mapSubqueries f)).Embeds q ↔ (∃ s, e.Embeds s ∧ f s = q) ∨
      readsForItself p = false ∧
        ∃ c, .column c ∈ e.nodes ∧ (putIn fuel (E.maskOf (aliasTargets root) id) e c).Embeds q := by
  rw [maskedAt]
  cases readsForItself p with
  | true => simp [embeds_mapSubqueries]
  | false =>
    simp only [Bool.false_eq_true, if_false, true_and]
    by_cases hc : ∃ c, e = .column c
    · obtain ⟨c, rfl⟩ := hc
      simp only [mapSubqueries, maskedExpr, putIn]
      cases hm : E.maskOf (aliasTargets root) id c <;> simp [nodes, hm]
    · have hne : ∀ c, e ≠ .column c := not_exists.mp hc
      rw [maskedExpr_of_ne_column fun c h => hne c (mapSubqueries_eq_column.mp h)]
      simp only [putIn_of_ne_column hne, ← embeds_mapSubqueries, ← @column_mem_nodes_mapSubqueries f e,
        ← embeds_substColumns]
      rw [aliasBack]
      split_ifs <;> simp

/-- The row filters succeed on the masks that are put in at the node. -/
def MasksTyped (T : PredicateTyping) (F : RowFilterEnforcer) (fuel : Nat) (E : ColumnMaskingEnforcer)
    (id : Identity) (root node : LogicalPlan) : Prop :=
  readsForItself node = false → ∀ e ∈ node.expressions, ∀ c, .column c ∈ e.nodes →
    ∀ q, (putIn fuel (E.maskOf (aliasTargets root) id) e c).Embeds q → FiltersType T F id q q

/-- Over the masked plan the row filters come to the same nodes, and to the masks. -/
theorem filtersType_masked_iff (hT : ∀ predicate p q, p.outline = q.outline → T predicate p = T predicate q)
    (p) : ∀ {root root' root''}, MasksEnd schemaName fuel E id root p →
      (FiltersType T F id root' (masked schemaName fuel E id root p) ↔ FiltersType T F id root'' p ∧
        EachReached (F.resolvePredicate · id) (MasksTyped T F fuel E id) root p) := by
  induction p using induct with
  | step =>
    intro p his hep root root' root'' h
    obtain ⟨hsu, -, hin⟩ := masksEnd_iff.mp h
    have hex : (masked schemaName fuel E id root p).expressions = p.expressions.map fun e =>
        E.maskedAt schemaName fuel id root p (e.mapSubqueries fun q => masked schemaName fuel E id q q) := by
      rw [masked_eq h, expressions_withNewInputs,
        expressions_withNewExpressions (length_map _)]
      rfl
    have hes : (∀ e ∈ (masked schemaName fuel E id root p).expressions, ∀ q, e.Embeds q → FiltersType T F id q q) ↔
        ((∀ e ∈ p.expressions, ∀ q, e.Embeds q → FiltersType T F id q q) ∧
          ∀ e ∈ p.expressions, ∀ q, e.Embeds q →
            EachReached (F.resolvePredicate · id) (MasksTyped T F fuel E id) q q) ∧
        MasksTyped T F fuel E id root p := by
      rw [hex, forall_mem_map]
      simp only [embeds_maskedAt, MasksTyped]
      constructor
      · intro H
        have hq : ∀ e ∈ p.expressions, ∀ q, e.Embeds q → FiltersType T F id q q ∧
            EachReached (F.resolvePredicate · id) (MasksTyped T F fuel E id) q q := fun e he q hq =>
          (hep e he q hq (hsu e he q hq)).mp (H e he _ (.inl ⟨q, hq, rfl⟩))
        exact ⟨⟨fun e he q hq' => (hq e he q hq').1, fun e he q hq' => (hq e he q hq').2⟩,
          fun hr e he c hc q hq => H e he q (.inr ⟨hr, c, hc, hq⟩)⟩
      · rintro ⟨⟨ht, hre⟩, hm⟩ e he q (⟨s, hs, rfl⟩ | ⟨hr, c, hc, hq⟩)
        · exact (hep e he s hs (hsu e he s hs)).mpr ⟨ht e he s hs, hre e he s hs⟩
        · exact hm hr e he c hc q hq
    rw [filtersType_iff, hes, guardAt_masked h, @filtersType_iff T F id root'' p, eachReached_iff]
    cases hguard : guardAt (F.resolvePredicate · id) p with
    | none =>
      have hi : (∀ i ∈ (masked schemaName fuel E id root p).inputs, FiltersType T F id root' i) ↔
          (∀ i ∈ p.inputs, FiltersType T F id root'' i) ∧
            ∀ i ∈ p.inputs, EachReached (F.resolvePredicate · id) (MasksTyped T F fuel E id) root i := by
        rw [masked_eq h,
          inputs_withNewInputs (by rw [inputs_withNewExpressions, length_map]),
          forall_mem_map]
        simp only [← forall_and]
        exact forall₂_congr fun i hi => his i hi (hin i hi)
      simp only [hi, true_imp_iff]
      constructor
      · rintro ⟨⟨⟨hem, hqu⟩, hm⟩, hf, hb⟩
        exact ⟨⟨hem, hf⟩, hm, hb, hqu⟩
      · rintro ⟨⟨hem, hf⟩, hm, hb, hqu⟩
        exact ⟨⟨⟨hem, hqu⟩, hm⟩, hf, hb⟩
    | some predicate =>
      have ht : ∀ es es', T predicate ((masked schemaName fuel E id root p).withNewExpressions es) =
          T predicate (p.withNewExpressions es') := fun es es' =>
        hT predicate _ _ (by simp [outline_masked p h])
      simp only [ht _ (guardExprs (F.resolvePredicate · id) false p.expressions), reduceCtorEq, false_imp_iff,
        true_and]
      constructor
      · rintro ⟨⟨⟨hem, hqu⟩, hm⟩, hfi⟩
        exact ⟨⟨hem, hfi⟩, hm, hqu⟩
      · rintro ⟨⟨hem, hfi⟩, hm, hqu⟩
        exact ⟨⟨⟨hem, hqu⟩, hm⟩, hfi⟩

theorem filtersType_of_ungoverned (p) : ∀ {root},
    (∀ t, Scanned t p → F.resolvePredicate t id = none) → FiltersType T F id root p := by
  induction p using induct with
  | step =>
    intro p hin hex root h
    have hg : guardAt (F.resolvePredicate · id) p = none := by
      cases p with
      | tableScan t => exact h t (scanned_iff.mpr (.inl ⟨_, _, _, rfl⟩))
      | filter | projection | node => rfl
      | subqueryAlias name input =>
        cases input with
        | tableScan t projection filters fetch =>
          have hs : Scanned t (.tableScan t projection filters fetch) := scanned_iff.mpr (.inl ⟨_, _, _, rfl⟩)
          have ht := h t (scanned_iff.mpr (.inr (.inr ⟨_, mem_singleton_self _, hs⟩)))
          simp [guardAt, ht]
        | filter | projection | node | subqueryAlias => rfl
    refine filtersType_iff.mpr ⟨fun e he q hq => hex e he q hq fun t ht => ?_, ?_⟩
    · exact h t (scanned_iff.mpr (.inr (.inl ⟨e, he, q, hq, ht⟩)))
    · rw [hg]
      exact fun i hi => hin i hi fun t ht => h t (scanned_iff.mpr (.inr (.inr ⟨i, hi, ht⟩)))

variable {plan x : LogicalPlan}

theorem RowFilterEnforcer.exists_rewrite_iff : (∃ r, F.rewrite T plan id = .ok r ∧ r.data = x) ↔
    FiltersType T F id plan plan ∧ guardPlan (F.resolvePredicate · id) false plan = x := by
  have hok : (∃ r, F.rewrite T plan id = .ok r) ↔ FiltersType T F id plan plan := by
    rw [rewrite]
    split_ifs with he
    · exact iff_of_true ⟨_, rfl⟩ (filtersType_of_ungoverned plan fun t _ => resolvePredicate_of_isEmpty he t)
    · rfl
  rw [← hok, ← exists_and_right]
  exact exists_congr fun r => and_congr_right fun hr => by rw [rewrite_data hr]

theorem ColumnMaskingEnforcer.exists_rewrite_iff : (∃ r, E.rewrite schemaName fuel plan id = .ok r ∧ r.data = x) ↔
    MasksEnd schemaName fuel E id plan plan ∧ masked schemaName fuel E id plan plan = x := by
  have hok : (∃ r, E.rewrite schemaName fuel plan id = .ok r) ↔ MasksEnd schemaName fuel E id plan plan := by
    refine ⟨fun ⟨r, hr⟩ => (rewrite_data hr).1, fun h => ?_⟩
    rw [rewrite]
    split_ifs with hempty
    · exact ⟨_, rfl⟩
    · exact h
  rw [← hok, ← exists_and_right]
  exact exists_congr fun r => and_congr_right fun hr => by rw [(rewrite_data hr).2]

end Typed

/-! ## The composites -/

/-- Neither rewrite touches what the other puts in at the node: the masks leave the subqueries of its row-filter
predicate as they are, and the masks put in for its columns read no filtered table in a subquery. -/
def Apart (D : Engine) (E : ColumnMaskingEnforcer) (F : RowFilterEnforcer) (id : Identity) (root node : LogicalPlan) :
    Prop :=
  (∀ predicate, guardAt (F.resolvePredicate · id) node = some predicate → ∀ q, predicate.Embeds q →
    ∃ r, E.rewrite D.schemaName D.fuel q id = .ok r ∧ r.data = q) ∧
  (readsForItself node = false → ∀ e ∈ node.expressions, ∀ c, .column c ∈ e.nodes →
    ∀ q, (putIn D.fuel (E.maskOf (aliasTargets root) id) e c).Embeds q → ∀ t, Scanned t q →
      F.resolvePredicate t id = none)

section Composite

variable {D : Engine} {E : ColumnMaskingEnforcer} {F : RowFilterEnforcer} {id : Identity} {plan : LogicalPlan}

theorem Apart.iff {root node} : Apart D E F id root node ↔
    PredicatesEnd D.schemaName D.fuel E id (F.resolvePredicate · id) root node ∧
      Unmoved D.schemaName D.fuel E id (F.resolvePredicate · id) root node := by
  simp only [Apart, PredicatesEnd, Unmoved, ColumnMaskingEnforcer.exists_rewrite_iff, guardPlan_eq_self_iff, forall_and,
    and_assoc]

theorem Apart.masksTyped {root node} (h : Apart D E F id root node) : MasksTyped D.typing F D.fuel E id root node :=
  fun hr e he c hc q hq => filtersType_of_ungoverned q (h.2 hr e he c hc q hq)

theorem Enforcer.exists_composite_pair_iff {e e' x} :
    (∃ r, (composite [e, e']).rewrite D plan id = .ok r ∧ r.data = x) ↔
      ∃ y, (∃ t, e.rewrite D plan id = .ok t ∧ t.data = y) ∧ ∃ t, e'.rewrite D y id = .ok t ∧ t.data = x := by
  simp only [rewrite, rewriteInner_cons_ok, rewriteInner_singleton]
  constructor
  · rintro ⟨_, ⟨t, ht, t', ht', rfl⟩, rfl⟩
    exact ⟨t.data, ⟨t, ht, rfl⟩, t', ht', rfl⟩
  · rintro ⟨_, ⟨t, ht, rfl⟩, t', ht', rfl⟩
    exact ⟨_, ⟨t, ht, t', ht', rfl⟩, rfl⟩

theorem exists_masks_filters_iff {x} :
    (∃ r, (Enforcer.composite [.masks E, .rowFilters F]).rewrite D plan id = .ok r ∧ r.data = x) ↔
      MasksEnd D.schemaName D.fuel E id plan plan ∧
        FiltersType D.typing F id (masked D.schemaName D.fuel E id plan plan)
          (masked D.schemaName D.fuel E id plan plan) ∧
        guardPlan (F.resolvePredicate · id) false (masked D.schemaName D.fuel E id plan plan) = x := by
  rw [exists_composite_pair_iff]
  simp only [Enforcer.rewrite, ColumnMaskingEnforcer.exists_rewrite_iff, RowFilterEnforcer.exists_rewrite_iff, and_assoc,
    exists_and_left, exists_eq_left']

theorem exists_filters_masks_iff {x} :
    (∃ r, (Enforcer.composite [.rowFilters F, .masks E]).rewrite D plan id = .ok r ∧ r.data = x) ↔
      FiltersType D.typing F id plan plan ∧
        MasksEnd D.schemaName D.fuel E id (guardPlan (F.resolvePredicate · id) false plan)
          (guardPlan (F.resolvePredicate · id) false plan) ∧
        masked D.schemaName D.fuel E id (guardPlan (F.resolvePredicate · id) false plan)
          (guardPlan (F.resolvePredicate · id) false plan) = x := by
  rw [exists_composite_pair_iff]
  simp only [Enforcer.rewrite, ColumnMaskingEnforcer.exists_rewrite_iff, RowFilterEnforcer.exists_rewrite_iff, and_assoc,
    exists_and_left, exists_eq_left']

/-- **When the order of masks and row filters does not matter.** Of a plan that one of the two composites rewrites,
both make the same plan, with the same rows over every database, exactly when at no node one of the rewrites would
touch what the other puts in. In particular the predicates of row filters are then evaluated as the rules have
them, on values that are not masked. -/
theorem composite_order_iff (hD : D.BySchema) (E : ColumnMaskingEnforcer) (F : RowFilterEnforcer) (id : Identity)
    (plan : LogicalPlan)
    (h : (∃ r, (Enforcer.composite [.masks E, .rowFilters F]).rewrite D plan id = .ok r) ∨
      ∃ r, (Enforcer.composite [.rowFilters F, .masks E]).rewrite D plan id = .ok r) :
    (∃ r₁ r₂, (Enforcer.composite [.masks E, .rowFilters F]).rewrite D plan id = .ok r₁ ∧
      (Enforcer.composite [.rowFilters F, .masks E]).rewrite D plan id = .ok r₂ ∧ r₁.data = r₂.data ∧
      ∀ (V : Type) (I : Interp V) (db : Database V) (outer : Row V),
        evalPlan I db keepAll outer r₁.data = evalPlan I db keepAll outer r₂.data) ↔
      EachReached (F.resolvePredicate · id) (Apart D E F id) plan plan := by
  have hro : aliasTargets (guardPlan (F.resolvePredicate · id) false plan) = aliasTargets plan :=
    aliasTargets_guardPlan plan
  constructor
  · rintro ⟨r₁, r₂, h₁, h₂, hd, -⟩
    obtain ⟨hm, -, hx⟩ := exists_masks_filters_iff.mp ⟨r₁, h₁, rfl⟩
    obtain ⟨-, hm', hy⟩ := exists_filters_masks_iff.mp ⟨r₂, h₂, rfl⟩
    obtain ⟨-, he⟩ := (masksEnd_guardPlan_iff plan hro).mp hm'
    have hu := (swaps_iff hD.names plan hro hm hm').mp (by rw [Swaps, hx, hy, hd])
    exact (he.and hu).imp fun root node => Apart.iff.mpr
  · intro ha
    have he := ha.imp fun root node h => (Apart.iff.mp h).1
    have hu := ha.imp fun root node h => (Apart.iff.mp h).2
    have ht := ha.imp fun root node h => h.masksTyped
    -- whichever order succeeds, the other does
    obtain ⟨hm, hf⟩ : MasksEnd D.schemaName D.fuel E id plan plan ∧ FiltersType D.typing F id plan plan := by
      rcases h with ⟨r, hr⟩ | ⟨r, hr⟩
      · obtain ⟨hm, hf, -⟩ := exists_masks_filters_iff.mp ⟨r, hr, rfl⟩
        exact ⟨hm, ((filtersType_masked_iff hD.typing plan hm).mp hf).1⟩
      · obtain ⟨hf, hm', -⟩ := exists_filters_masks_iff.mp ⟨r, hr, rfl⟩
        exact ⟨((masksEnd_guardPlan_iff plan hro).mp hm').1, hf⟩
    have hm' := (masksEnd_guardPlan_iff plan hro).mpr ⟨hm, he⟩
    obtain ⟨r₁, h₁, hx⟩ := exists_masks_filters_iff.mpr
      ⟨hm, (filtersType_masked_iff hD.typing plan hm).mpr ⟨hf, ht⟩, rfl⟩
    obtain ⟨r₂, h₂, hy⟩ := exists_filters_masks_iff.mpr ⟨hf, hm', rfl⟩
    have hd : r₁.data = r₂.data := by
      rw [hx, hy]
      exact (swaps_iff hD.names plan hro hm hm').mpr hu
    exact ⟨r₁, r₂, h₁, h₂, hd, fun V I db outer => by rw [hd]⟩

end Composite

/-- `SELECT users.email FROM users`, with the addresses masked and a row filter on `users`: no subquery is put in, and
the order does not matter. -/
theorem composite_order_simple_rules :
    let D : Engine := ⟨fun _ _ => none, fun _ => "", 1, fun _ => ""⟩
    let email : Column := ⟨some (.bare "users"), "email"⟩
    let active : Expr := .column ⟨some (.bare "users"), "active"⟩
    let plan : LogicalPlan := .projection [.column email] (.tableScan (.bare "users") none [] none) [email]
    ∃ E F, ColumnMaskingEnforcer.new [⟨.bare "users", "email", .literal (.utf8 "***"), none, none⟩] = .ok E ∧
      RowFilterEnforcer.new [⟨.bare "users", active, none, none⟩] = .ok F ∧
      ∃ r₁ r₂, (Enforcer.composite [.masks E, .rowFilters F]).rewrite D plan .anonymous = .ok r₁ ∧
        (Enforcer.composite [.rowFilters F, .masks E]).rewrite D plan .anonymous = .ok r₂ ∧ r₁.data = r₂.data ∧
        ∀ (V : Type) (I : Interp V) (db : Database V) (outer : Row V),
          evalPlan I db keepAll outer r₁.data = evalPlan I db keepAll outer r₂.data := by
  intro D email active plan
  have hD : D.BySchema := ⟨fun _ _ _ _ => rfl, fun _ => rfl⟩
  refine ⟨_, _, rfl, rfl, (composite_order_iff hD _ _ .anonymous plan (.inl ⟨_, rfl⟩)).mpr ?_⟩
  refine .intro ⟨nofun, fun _ e he c hc q hq => ?_⟩ (fun _ i hi => ?_) fun e he q hq => ?_
  · obtain rfl := List.mem_singleton.mp he
    obtain rfl : c = email := by simpa [nodes] using hc
    exact absurd hq embeds_literal
  · obtain rfl := List.mem_singleton.mp hi
    refine .intro ⟨fun predicate hp q hq => ?_, nofun⟩ (fun _ i hi => nomatch hi) fun e he => nomatch he
    obtain rfl : active = predicate := Option.some.inj hp
    exact absurd hq embeds_column
  · obtain rfl := List.mem_singleton.mp he
    exact absurd hq embeds_column

/-- Values are texts, and `IN` looks for the value among the rows of the subquery. -/
def textInterp : Interp String where
  null := ""
  literal v :=
    match v with
    | .utf8 s => s
    | _ => ""
  op _ _ := ""
  isTrue s := s == "true"
  scalarSubquery _ := ""
  inSubquery negated v rows := if rows.contains [v] != negated then "true" else "false"
  setComparison _ _ _ _ := ""
  existsSubquery negated nonempty := if nonempty != negated then "true" else "false"
  emit _ _ _ := []
  pass _ _ _ := []
  merge _ _ _ _ := []
  whole _ _ _ _ := []

/-- Orders may be seen whose owner is among the addresses of `users`, and the addresses are masked. With the row
filter first, the masks reach the predicate's subquery: the owner is looked for among masked addresses, and the order
is hidden. -/
theorem composite_order_matters :
    let D : Engine := ⟨fun _ _ => none, fun _ => "", 1, fun _ => ""⟩
    let email : Column := ⟨some (.bare "users"), "email"⟩
    let owner : Column := ⟨some (.bare "orders"), "owner"⟩
    let emails : LogicalPlan := .projection [.column email] (.tableScan (.bare "users") none [] none) [email]
    let known : Expr := .inSubquery (.column owner) emails [] false
    let plan : LogicalPlan := .tableScan (.bare "orders") none [] none
    let db : Database String := fun t =>
      if t = .bare "users" then [[("email", "a@x.org")]] else [[("owner", "a@x.org")]]
    ∃ E F r₁ r₂, ColumnMaskingEnforcer.new [⟨.bare "users", "email", .literal (.utf8 "***"), none, none⟩] = .ok E ∧
      RowFilterEnforcer.new [⟨.bare "orders", known, none, none⟩] = .ok F ∧
      (Enforcer.composite [.masks E, .rowFilters F]).rewrite D plan .anonymous = .ok r₁ ∧
      (Enforcer.composite [.rowFilters F, .masks E]).rewrite D plan .anonymous = .ok r₂ ∧
      evalPlan textInterp db keepAll [] r₁.data = [[(owner, "a@x.org")]] ∧
      evalPlan textInterp db keepAll [] r₂.data = [] := by
  intro D email owner emails known plan db
  refine ⟨_, _, _, _, rfl, rfl, rfl, rfl, ?_, ?_⟩
  · decide +kernel
  · decide +kernel

end Dataglot
