/-
Rewrites that change a node's expressions and nothing else (`map_expressions`),
run from the top over a whole plan. Such a rewrite keeps the plan's shape: it is
known from what it does to one expression of one node.
-/
import Dataglot.DataFusion.Transform

namespace DataFusion

/-- The loop of `map_expressions` over a node's expressions. -/
def mapExprs (f : Expr → Except DataFusionError (Transformed Expr)) :
    List Expr → Except DataFusionError (Transformed (List Expr))
  | [] => .ok (.no [])
  | e :: es => do
    let e' ← f e
    let es' ← mapExprs f es
    return ⟨e'.data :: es'.data, e'.transformed || es'.transformed⟩

def LogicalPlan.mapExpressions (f : Expr → Except DataFusionError (Transformed Expr)) (node : LogicalPlan) :
    Except DataFusionError (Transformed LogicalPlan) := do
  let es ← mapExprs f node.expressions
  return es.map node.withNewExpressions

section Loop

variable {f g : Expr → Except DataFusionError (Transformed Expr)} {es : List Expr} {r : Transformed (List Expr)}

theorem mapExprs_eq_mapLoop (es) : mapExprs f es = mapLoop f es := by
  induction es with
  | nil => rfl
  | cons e es ih => rw [mapExprs, mapLoop, ih]

theorem mapExprs_mono (hfg : ∀ e t, f e = .ok t → g e = .ok t) (h : mapExprs f es = .ok r) : mapExprs g es = .ok r := by
  rw [mapExprs_eq_mapLoop] at h ⊢
  exact mapLoop_mono (fun e _ => hfg e) h

theorem mapExprs_data {g} (hg : ∀ e ∈ es, ∀ t, f e = .ok t → t.data = g e)
    (h : mapExprs f es = .ok r) : r.data = es.map g :=
  mapLoop_data hg (mapExprs_eq_mapLoop es ▸ h)

theorem mapExprs_ok_iff : (∃ r, mapExprs f es = .ok r) ↔ ∀ e ∈ es, ∃ t, f e = .ok t := by
  rw [mapExprs_eq_mapLoop, exists_mapLoop_iff]

theorem mapExprs_length (h : mapExprs f es = .ok r) : r.data.length = es.length := by
  obtain ⟨ts, hts, rfl⟩ := mapLoop_ok_iff.mp (mapExprs_eq_mapLoop es ▸ h)
  rw [List.length_map, hts.length_eq]

theorem mapExprs_transformed (h : mapExprs f es = .ok r) :
    r.transformed = true ↔ ∃ e ∈ es, ∃ t, f e = .ok t ∧ t.transformed = true :=
  mapLoop_transformed (mapExprs_eq_mapLoop es ▸ h)

end Loop

theorem mapExprs_no (es) : mapExprs (fun e => .ok (.no e)) es = .ok (.no es) := by
  induction es with
  | nil => rfl
  | cons e es ih =>
    rw [mapExprs, ih]
    rfl

/-! ## The rewritten plan -/

/-- One step of a walk that succeeds: the subqueries of a node, the action on the node, and its inputs if the
walk goes on. -/
theorem rewriteTree_ok_step {act root p r} (hr : rewriteTree act root p = .ok r) :
    (∀ e ∈ p.expressions, ∀ q, e.Embeds q → ∃ r, rewriteTree act q q = .ok r) ∧
      ∃ v, act root (p.withNewExpressions (p.expressions.map (descended act))) = .ok v ∧
        (v.2 = .cont → (∀ i ∈ p.inputs, ∃ r, rewriteTree act root i = .ok r) ∧
          rewritten act root p = v.1.data.withNewInputs (p.inputs.map (rewritten act root))) := by
  rw [← rewritten_of_ok hr]
  rw [rewriteTree_eq] at hr
  simp only [Except.bind_ok_iff] at hr
  obtain ⟨es, hes, v, hv, hr⟩ := hr
  rw [rewriteExprs_descended hes] at hv
  refine ⟨rewriteExprs_ok_iff.mp ⟨es, hes⟩, v, hv, fun hc => ?_⟩
  rcases settle_ok hr with ⟨hj, -⟩ | ⟨-, is, his, hr⟩
  · rw [hc] at hj
    cases hj
  · have hi := rewriteTrees_data (fun q _ r hr => rewritten_of_ok hr) his
    exact ⟨rewriteTrees_ok_iff.mp ⟨is, his⟩, by rw [hr, hi]⟩

/-- The action rewrites each expression of a node by `f`, told the root and the node, and goes on to
the inputs. What it does may depend on the kind of the node, not on the node's expressions. -/
structure ExpressionWise (act : Action)
    (f : (root node : LogicalPlan) → Expr → Except DataFusionError (Transformed Expr)) : Prop where
  visits : ∀ {root node v}, act root node = .ok v → v.2 = .cont ∧
    ∃ es, mapExprs (f root node) node.expressions = .ok es ∧ v.1.data = node.withNewExpressions es.data
  succeeds : ∀ {root node es}, mapExprs (f root node) node.expressions = .ok es → ∃ v, act root node = .ok v
  uniform : ∀ root node es, f root (node.withNewExpressions es) = f root node

namespace ExpressionWise

variable {act : Action} {f : (root node : LogicalPlan) → Expr → Except DataFusionError (Transformed Expr)}
  {root p : LogicalPlan}

theorem rewritten_eq (h : ExpressionWise act f) {r} (hr : rewriteTree act root p = .ok r) :
    ∃ es, mapExprs (f root p) (p.expressions.map (descended act)) = .ok es ∧
      rewritten act root p = (p.withNewExpressions es.data).withNewInputs (p.inputs.map (rewritten act root)) := by
  obtain ⟨-, v, hv, hstep⟩ := rewriteTree_ok_step hr
  have hl : (p.expressions.map (descended act)).length = p.expressions.length := List.length_map _
  obtain ⟨hc, es, hes, hv⟩ := h.visits hv
  rw [LogicalPlan.expressions_withNewExpressions hl, h.uniform] at hes
  refine ⟨es, hes, ?_⟩
  have hl' : es.data.length = p.expressions.length := by rw [mapExprs_length hes, hl]
  rw [(hstep hc).2, hv, LogicalPlan.withNewExpressions_twice p es.data hl']

/-- The walk succeeds when it does on the embedded plans, on the inputs and at the node. -/
theorem rewriteTree_ok_iff (h : ExpressionWise act f) : (∃ r, rewriteTree act root p = .ok r) ↔
    (∀ e ∈ p.expressions, ∀ q, e.Embeds q → ∃ r, rewriteTree act q q = .ok r) ∧
      (∀ e ∈ p.expressions, ∃ t, f root p (descended act e) = .ok t) ∧
      ∀ i ∈ p.inputs, ∃ r, rewriteTree act root i = .ok r := by
  rw [rewriteTree_eq, ← rewriteExprs_ok_iff, ← rewriteTrees_ok_iff]
  have hm : (∀ e ∈ p.expressions, ∃ t, f root p (descended act e) = .ok t) ↔
      ∃ es, mapExprs (f root p) (p.expressions.map (descended act)) = .ok es := by
    rw [mapExprs_ok_iff, List.forall_mem_map]
  rw [hm]
  -- the node that the action sees
  have hn : ∀ {es}, rewriteExprs act p.expressions = .ok es →
      mapExprs (f root (p.withNewExpressions es.data)) (p.withNewExpressions es.data).expressions =
        mapExprs (f root p) (p.expressions.map (descended act)) := fun {es} hes => by
    have hd := rewriteExprs_descended hes
    rw [LogicalPlan.expressions_withNewExpressions (by rw [hd, List.length_map]), h.uniform, hd]
  simp only [Except.exists_bind_ok_iff, settle_ok_iff]
  constructor
  · rintro ⟨es, hes, v, hv, hi⟩
    obtain ⟨hc, es', hes', -⟩ := h.visits hv
    exact ⟨⟨es, hes⟩, ⟨es', hn hes ▸ hes'⟩, hi hc⟩
  · rintro ⟨⟨es, hes⟩, ⟨es', hes'⟩, hi⟩
    obtain ⟨v, hv⟩ := h.succeeds ((hn hes).trans hes')
    exact ⟨es, hes, v, hv, fun _ => hi⟩

end ExpressionWise

end DataFusion
