/-
The nodes that a rewrite from the top comes to, and what its flag says: a rewrite reports a change
when the action changed one of them.
-/
import Dataglot.DataFusion.MapExpressions

namespace DataFusion
open Except

/-- The walk over a plan comes to a node: a node of the plan, of one of the inputs it goes on to, or of a plan
embedded in an expression, which is walked from its own root. At a node the embedded plans are rewritten already. -/
inductive Visits (act : Action) : (root p root' node : LogicalPlan) → Prop
  | here (root p : LogicalPlan) : Visits act root p root (p.withNewExpressions (p.expressions.map (descended act)))
  | subquery {root p q root' node : LogicalPlan} {e : Expr} :
      e ∈ p.expressions → e.Embeds q → Visits act q q root' node → Visits act root p root' node
  | input {root p i root' node : LogicalPlan} {v : Transformed LogicalPlan} :
      act root (p.withNewExpressions (p.expressions.map (descended act))) = .ok (v, .cont) → i ∈ p.inputs →
        Visits act root i root' node → Visits act root p root' node

def ChangesOne (act : Action) (root p : LogicalPlan) : Prop :=
  ∃ root' node v, Visits act root p root' node ∧ act root' node = .ok v ∧ v.1.transformed = true

theorem Visits.exists_ok {act root p root' node} (h : Visits act root p root' node) :
    ∀ {r}, rewriteTree act root p = .ok r → ∃ v, act root' node = .ok v := by
  induction h with
  | here root p =>
    intro r hr
    obtain ⟨-, v, hv, -⟩ := rewriteTree_ok_step hr
    exact ⟨v, hv⟩
  | subquery he hq _ ih =>
    intro r hr
    obtain ⟨r', hr'⟩ := (rewriteTree_ok_step hr).1 _ he _ hq
    exact ih hr'
  | input hgo hi _ ih =>
    intro r hr
    obtain ⟨-, v, hv, hin⟩ := rewriteTree_ok_step hr
    obtain rfl := ok.inj (hgo.symm.trans hv)
    obtain ⟨r', hr'⟩ := (hin rfl).1 _ hi
    exact ih hr'

section Flag

variable {act : Action}

theorem rewriteExprs_transformed {es r} (h : rewriteExprs act es = .ok r) : r.transformed = true ↔
      ∃ e ∈ es, ∃ q, e.Embeds q ∧ ∃ r, rewriteTree act q q = .ok r ∧ r.transformed = true := by
  rw [rewriteExprs_eq_mapLoop] at h
  rw [mapLoop_transformed h]
  refine exists_congr fun e => and_congr_right fun he => ?_
  obtain ⟨t, ht⟩ := exists_mapLoop_iff.mp ⟨_, h⟩ e he
  simp [ht, (rewriteExpr_spec ht).2]

theorem changesOne_iff {root p} : ChangesOne act root p ↔
    (∃ v, act root (p.withNewExpressions (p.expressions.map (descended act))) = .ok v ∧ v.1.transformed = true) ∨
      (∃ e ∈ p.expressions, ∃ q, e.Embeds q ∧ ChangesOne act q q) ∨
      ∃ v, act root (p.withNewExpressions (p.expressions.map (descended act))) = .ok v ∧ v.2 = .cont ∧
        ∃ i ∈ p.inputs, ChangesOne act root i := by
  constructor
  · rintro ⟨root', node, v, hvi, hv, hc⟩
    cases hvi with
    | here => exact .inl ⟨v, hv, hc⟩
    | subquery he hq hvi => exact .inr (.inl ⟨_, he, _, hq, _, _, v, hvi, hv, hc⟩)
    | input hgo hi hvi => exact .inr (.inr ⟨_, hgo, rfl, _, hi, _, _, v, hvi, hv, hc⟩)
  · rintro (⟨v, hv, hc⟩ | ⟨e, he, q, hq, root', node, v, hvi, hv, hc⟩ |
      ⟨⟨n, tnr⟩, hgo, hco, i, hi, root', node, v, hvi, hv, hc⟩)
    · exact ⟨_, _, v, .here root p, hv, hc⟩
    · exact ⟨root', node, v, .subquery he hq hvi, hv, hc⟩
    · obtain rfl : tnr = .cont := hco
      exact ⟨root', node, v, .input hgo hi hvi, hv, hc⟩

theorem settle_transformed {subChanged v inputs r} (h : settle subChanged v inputs = .ok r) : r.transformed = true ↔
      subChanged = true ∨ v.1.transformed = true ∨ v.2 = .cont ∧ ∃ is, inputs = .ok is ∧ is.transformed = true := by
  obtain ⟨n, tnr⟩ := v
  cases tnr with
  | jump =>
    cases h
    simp
  | cont =>
    simp only [settle, bind_ok_iff, pure_ok_iff] at h
    obtain ⟨is, his, rfl⟩ := h
    simp [his, or_assoc]

/-- A rewrite reports a change when one of the nodes it comes to is changed. -/
theorem transformed_iff_changesOne (p) : ∀ {root r},
    rewriteTree act root p = .ok r → (r.transformed = true ↔ ChangesOne act root p) := by
  induction p using LogicalPlan.induct with
  | step =>
    intro p hin hex root r h
    obtain ⟨hs, -⟩ := rewriteTree_ok_step h
    rw [rewriteTree_eq] at h
    simp only [bind_ok_iff] at h
    obtain ⟨es, hes, v, hv, h⟩ := h
    rw [settle_transformed h, rewriteExprs_transformed hes, changesOne_iff]
    rw [rewriteExprs_descended hes] at hv
    have hem : (∃ e ∈ p.expressions, ∃ q, e.Embeds q ∧ ∃ r, rewriteTree act q q = .ok r ∧ r.transformed = true) ↔
        ∃ e ∈ p.expressions, ∃ q, e.Embeds q ∧ ChangesOne act q q := by
      refine exists_congr fun e => and_congr_right fun he => exists_congr fun q => and_congr_right fun hq => ?_
      obtain ⟨r, hr⟩ := hs e he q hq
      simp [hr, hex e he q hq hr]
    have hit : (v.2 = .cont ∧ ∃ is, rewriteTrees act root p.inputs = .ok is ∧ is.transformed = true) ↔
        v.2 = .cont ∧ ∃ i ∈ p.inputs, ChangesOne act root i := by
      refine and_congr_right fun hc => ?_
      obtain ⟨is, his⟩ := settle_ok_iff.mp ⟨r, h⟩ hc
      have ha := rewriteTrees_ok_iff.mp ⟨is, his⟩
      rw [his]
      simp only [ok.injEq, exists_eq_left', mapLoop_transformed (rewriteTrees_eq_mapLoop _ ▸ his)]
      refine exists_congr fun i => and_congr_right fun hi => ?_
      obtain ⟨r, hr⟩ := ha i hi
      simp [hr, hin i hi hr]
    rw [hem, hit]
    simp only [hv, ok.injEq, exists_eq_left']
    exact or_left_comm

end Flag

end DataFusion
