/-
What the output columns of a plan depend on: the tables and how they are projected, the aliases and
the schemas of the nodes. DataFusion types an expression over a plan, and names the field that an
expression computes, by the schemas of the plans it sees and by nothing else of them.
-/
import Dataglot.DataFusion.Transform

namespace DataFusion
open List

namespace LogicalPlan

mutual

/-- The plan without its filters and expressions. -/
def outline : LogicalPlan → LogicalPlan
  | tableScan t pr _ _ => tableScan t pr [] none
  | filter _ input => outline input
  | projection _ input schema => projection [] (outline input) schema
  | subqueryAlias name input => subqueryAlias name (outline input)
  | node kind detail _ inputs schema => node kind detail [] (outlines inputs) schema

def outlines : List LogicalPlan → List LogicalPlan
  | [] => []
  | p :: ps => outline p :: outlines ps

end

theorem outlines_eq_map (ps) : outlines ps = ps.map outline := by
  induction ps with
  | nil => rfl
  | cons p ps ih => rw [outlines, ih, map_cons]

@[simp] theorem outline_withNewExpressions (p : LogicalPlan) (es) :
    (p.withNewExpressions es).outline = p.outline := by
  cases p <;> rfl

variable {is : List LogicalPlan} {p : LogicalPlan} {es : List Expr}

theorem outline_withNewInputs
    (h : is.map outline = p.inputs.map outline) : (p.withNewInputs is).outline = p.outline := by
  cases p with
  | tableScan => rfl
  | filter | projection | subqueryAlias =>
    obtain ⟨i, rfl⟩ : ∃ i, is = [i] := length_eq_one_iff.mp (by simpa [inputs] using congrArg length h)
    have hi : i.outline = _ := head_eq_of_cons_eq h
    simp only [withNewInputs, headD_cons, outline, hi]
  | node =>
    simp only [withNewInputs, outline, outlines_eq_map, h]
    rfl

theorem withNew_withNewExpressions {es'} (h : es'.length = p.expressions.length) :
    ((p.withNewExpressions es).withNewInputs is).withNewExpressions es' =
      (p.withNewExpressions es').withNewInputs is := by
  cases p with
  | filter predicate input =>
    obtain ⟨e, rfl⟩ := length_eq_one_iff.mp h
    rfl
  | subqueryAlias | tableScan | projection | node => rfl

theorem withNew_withNewInputs {is'} (h : is'.length = p.inputs.length) :
    ((p.withNewExpressions es).withNewInputs is).withNewInputs is' = (p.withNewExpressions es).withNewInputs is' := by
  cases p with
  | tableScan => rfl
  | filter | projection | subqueryAlias =>
    obtain ⟨i, rfl⟩ := length_eq_one_iff.mp h
    rfl
  | node => rfl

end LogicalPlan

section Root

variable {act : Action} {root root' : LogicalPlan}

theorem rewriteTree_congr_root (h : act root' = act root) (p) :
    rewriteTree act root' p = rewriteTree act root p := by
  refine LogicalPlan.induct ?_ p
  intro p hin _
  have hl : ∀ ps, (∀ i ∈ ps, rewriteTree act root' i = rewriteTree act root i) →
      rewriteTrees act root' ps = rewriteTrees act root ps := by
    intro ps hps
    induction ps with
    | nil => rfl
    | cons i ps ih => rw [rewriteTrees, rewriteTrees, hps i mem_cons_self, ih fun i hi => hps i (by simp [hi])]
  rw [rewriteTree_eq, rewriteTree_eq, h, hl p.inputs hin]

end Root

/-! ## Replacing columns and embedded plans -/

namespace Expr

variable {f g : LogicalPlan → LogicalPlan} {σ : Column → Expr}

theorem mapSubqueries_mapSubqueries : ∀ e : Expr,
    (e.mapSubqueries f).mapSubqueries g = e.mapSubqueries fun q => g (f q)
  | inSubquery e _ _ _ | setComparison e _ _ _ _ | aliasExpr e _ _ => by
    simp only [mapSubqueries, mapSubqueries_mapSubqueries e]
  | op _ args => by
    simp only [mapSubqueries, mapSubqueriesList_eq_map, map_map]
    exact congrArg (op _) (map_congr_left fun e _ => mapSubqueries_mapSubqueries e)
  | scalarSubquery _ _ | existsSubquery _ _ _ | column _ | outerReferenceColumn _ | literal _ => rfl

theorem mapSubqueries_eq_self_iff {e : Expr} : e.mapSubqueries f = e ↔ ∀ q, e.Embeds q → f q = q := by
  nth_rewrite 2 [← mapSubqueries_id e]
  exact mapSubqueries_eq_iff

theorem mapSubqueries_substColumns : ∀ e : Expr,
    (e.substColumns σ).mapSubqueries f = (e.mapSubqueries f).substColumns fun c => (σ c).mapSubqueries f
  | inSubquery e _ _ _ | setComparison e _ _ _ _ | aliasExpr e _ _ => by
    simp only [mapSubqueries, substColumns, mapSubqueries_substColumns e]
  | op _ args => by
    simp only [mapSubqueries, substColumns, mapSubqueriesList_eq_map, substColumnsList_eq_map, map_map]
    exact congrArg (op _) (map_congr_left fun e _ => mapSubqueries_substColumns e)
  | scalarSubquery _ _ | existsSubquery _ _ _ | column _ | outerReferenceColumn _ | literal _ => rfl

end Expr

end DataFusion
