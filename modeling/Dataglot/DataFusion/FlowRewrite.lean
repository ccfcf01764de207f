/-
Rewrites that take references to secrets out of a plan.

What such a rewrite does at a node is to leave out some of the columns that the
node's expressions read, and to add nothing to read. A plan whose references to
secrets are all among those that are left out reads no secret once it is
rewritten, and runs alike on databases that differ only in secrets.
-/
import Dataglot.DataFusion.Flow
import Dataglot.DataFusion.MapExpressions

namespace DataFusion
open LogicalPlan List

/-- The plans are one operator: over the same inputs, the secrets of their rows are the same. -/
structure SameOperator (p p' : LogicalPlan) : Prop where
  inputs : p'.inputs = p.inputs
  wholeRows : p'.wholeRows = p.wholeRows
  raw : ∀ secret is, raw secret (p'.withNewInputs is) = raw secret (p.withNewInputs is)
  rawSeen : ∀ secret is, rawSeen secret (p'.withNewInputs is) = rawSeen secret (p.withNewInputs is)

theorem SameOperator.refl (p) : SameOperator p p := ⟨rfl, rfl, fun _ _ => rfl, fun _ _ => rfl⟩

theorem sameOperator_withNewExpressions (p es) : SameOperator p
    (p.withNewExpressions es) := by
  cases p <;> exact ⟨rfl, rfl, fun _ _ => rfl, fun _ _ => rfl⟩

theorem SameOperator.trans {p p' p''} (h : SameOperator p p') (h' : SameOperator p' p'') : SameOperator p p'' where
  inputs := h'.inputs.trans h.inputs
  wholeRows := h'.wholeRows.trans h.wholeRows
  raw secret is := (h'.raw secret is).trans (h.raw secret is)
  rawSeen secret is := (h'.rawSeen secret is).trans (h.rawSeen secret is)

/-- The rewrite keeps each operator, and its expressions read what they did but for the columns that are
answered. Which columns are answered at a node does not depend on the node's expressions. -/
structure Withholds (act : Action) (answered : (root node : LogicalPlan) → Column → Prop) : Prop where
  continues : ∀ {root node v}, act root node = .ok v → v.2 = .cont
  sameOperator : ∀ {root node v}, act root node = .ok v → SameOperator node v.1.data
  sources : ∀ {root node v}, act root node = .ok v → ∀ e' ∈ v.1.data.expressions, ∀ s ∈ e'.sources,
    ∃ e ∈ node.expressions, s ∈ e.sources ∧ ∀ c, s = .column c → ¬ answered root node c
  uniform : ∀ root node es, answered root (node.withNewExpressions es) = answered root node

namespace Withholds

variable {act : Action} {answered : (root node : LogicalPlan) → Column → Prop} {root p : LogicalPlan}

theorem step (h : Withholds act answered) {r} (hr : rewriteTree act root p = .ok r) :
    (∀ i ∈ p.inputs, ∃ r, rewriteTree act root i = .ok r) ∧
      (∀ e ∈ p.expressions, ∀ q, e.Embeds q → ∃ r, rewriteTree act q q = .ok r) ∧
      ∃ p', SameOperator p p' ∧ rewritten act root p = p'.withNewInputs (p.inputs.map (rewritten act root)) ∧
        ∀ e' ∈ p'.expressions, ∀ s ∈ e'.sources, ∃ e ∈ p.expressions, ∃ s₀ ∈ e.sources,
          s = s₀.mapPlan (fun q => rewritten act q q) ∧ ∀ c, s₀ = .column c → ¬ answered root p c := by
  obtain ⟨hsu, v, hv, hstep⟩ := rewriteTree_ok_step hr
  obtain ⟨hi, heq⟩ := hstep (h.continues hv)
  have hop := (sameOperator_withNewExpressions p _).trans (h.sameOperator hv)
  refine ⟨hi, hsu, v.1.data, hop, heq, fun e' he' s hs => ?_⟩
  obtain ⟨e, he, hs, hno⟩ := h.sources hv e' he' s hs
  rw [expressions_withNewExpressions (length_map _)] at he
  obtain ⟨e, hm, rfl⟩ := mem_map.mp he
  rw [descended, Expr.sources_mapSubqueries] at hs
  obtain ⟨s₀, hs₀, rfl⟩ := mem_map.mp hs
  refine ⟨e, hm, s₀, hs₀, rfl, ?_⟩
  rintro c rfl
  rw [← h.uniform]
  exact hno c rfl

theorem raw_rewritten (h : Withholds act answered) (secret p) :
    ∀ root, (∃ r, rewriteTree act root p = .ok r) → raw secret (rewritten act root p) = raw secret p := by
  refine induct ?_ p
  rintro p ih - root ⟨r, hr⟩
  obtain ⟨hin, -, p', hop, heq, -⟩ := h.step hr
  have hs : Forall₂ (fun i i' => raw secret i' = raw secret i) p.inputs (p.inputs.map (rewritten act root)) :=
    forall₂_map_right_iff.mpr (forall₂_same.mpr fun i hi => ih i hi root (hin i hi))
  have hra : raw secret ((p.withNewExpressions p.expressions).withNewInputs (p.inputs.map (rewritten act root))) =
      raw secret p := (raw_withNew hs).1
  rw [withNewExpressions_self] at hra
  rw [heq, hop.raw, hra]

theorem sealed_rewritten (h : Withholds act answered) (secret p) :
    ∀ root around, (∃ r, rewriteTree act root p = .ok r) →
      EachNode (enterRaw secret) (SealedAt secret answered) root around p → ∀ root',
      EachNode (enterRaw secret) (SealedAt secret fun _ _ _ => False) root' around (rewritten act root p) := by
  refine induct ?_ p
  rintro p ihinputs ihexprs root around ⟨r, hr⟩ hse root'
  obtain ⟨hi, hq, p', hop, heq, hso⟩ := h.step hr
  obtain ⟨⟨hex, hw⟩, hin, hsu⟩ := eachNode_iff.mp hse
  have hl : (p.inputs.map (rewritten act root)).length = p'.inputs.length := by rw [length_map, hop.inputs]
  have hra : Forall₂ (fun i i' => raw secret i' = raw secret i) p.inputs (p.inputs.map (rewritten act root)) :=
    forall₂_map_right_iff.mpr (forall₂_same.mpr fun i hm => h.raw_rewritten secret i root (hi i hm))
  have hsn : rawSeen secret (rewritten act root p) = rawSeen secret p := by
    have hsn : rawSeen secret ((p.withNewExpressions p.expressions).withNewInputs (p.inputs.map (rewritten act root))) =
        rawSeen secret p := (raw_withNew hra).2
    rw [withNewExpressions_self] at hsn
    rw [heq, hop.rawSeen, hsn]
  have hro : (rewritten act root p).wholeRows = p.wholeRows := by
    have hro : ((p'.withNewExpressions p'.expressions).withNewInputs (p.inputs.map (rewritten act root))).wholeRows =
        p'.wholeRows := wholeRows_withNew hl
    rw [withNewExpressions_self] at hro
    rw [heq, hro, hop.wholeRows]
  have hsr : ∀ e' ∈ (rewritten act root p).expressions, ∀ s ∈ e'.sources, ∃ e ∈ p.expressions, ∃ s₀ ∈ e.sources,
      s = s₀.mapPlan (fun q => rewritten act q q) ∧ ∀ c, s₀ = .column c → ¬ answered root p c := by
    rw [heq, expressions_withNewInputs]
    exact hso
  refine .intro ⟨fun e' he' s hs => ?_, ?_⟩ ?_ fun e' he' q' hq' => ?_
  · rw [hsn]
    obtain ⟨e, he, s₀, hs₀, rfl, hno⟩ := hsr e' he' s hs
    have hs₀' := hex e he s₀ hs₀
    cases s₀ with
    | column c => exact .inl (hs₀'.resolve_right (hno c rfl))
    | outer c => exact hs₀'
    | values q =>
      have hem := Expr.embeds_iff_mem_sources.mpr (.inl hs₀)
      exact (h.raw_rewritten secret q q (hq e he q hem)).trans hs₀'
    | existence q => trivial
  · rw [hro, hsn]
    exact hw
  · rw [heq, inputs_withNewInputs hl, forall_mem_map]
    exact fun i hm => ihinputs i hm root around (hi i hm) (hin i hm) root'
  · obtain ⟨e, he, q, hem, rfl⟩ : ∃ e ∈ p.expressions, ∃ q, e.Embeds q ∧ q' = rewritten act q q := by
      rcases Expr.embeds_iff_mem_sources.mp hq' with hs | hs
      · obtain ⟨e, he, s₀, hs₀, heq, -⟩ := hsr e' he' _ hs
        cases s₀ <;> cases heq
        exact ⟨e, he, _, Expr.embeds_iff_mem_sources.mpr (.inl hs₀), rfl⟩
      · obtain ⟨e, he, s₀, hs₀, heq, -⟩ := hsr e' he' _ hs
        cases s₀ <;> cases heq
        exact ⟨e, he, _, Expr.embeds_iff_mem_sources.mpr (.inr hs₀), rfl⟩
    rw [enterRaw, hsn]
    exact ihexprs e he q hem q _ (hq e he q hem) (hsu e he q hem) _

end Withholds

section Runs

variable {secret : TableReference → String → Prop} {plan : LogicalPlan}

theorem evalPlan_eq_of_sealed (hs : EachNode (enterRaw secret) (SealedAt secret fun _ _ _ => False) plan ∅ plan)
    (ho : raw secret plan = ∅) {V : Type} (I : Interp V) {db db'} (hdb : DiffersOnly secret db db') :
    evalPlan I db keepAll [] plan = evalPlan I db' keepAll [] plan := by
  have ha := evalPlan_agrees (I := I) hdb hs (.refl ∅ [])
  rw [ho] at ha
  exact ha.eq

/-- **What is withheld does not show.** A plan whose secrets are read only where the rewrite withholds them has,
rewritten, one result on databases that differ only in secrets. -/
theorem Withholds.evalPlan_eq {act answered} (h : Withholds act answered) {r} (hr : rewriteTree act plan plan = .ok r)
    (hs : EachNode (enterRaw secret) (SealedAt secret answered) plan ∅ plan) (ho : raw secret plan = ∅)
    {V : Type} (I : Interp V) {db db'} (hdb : DiffersOnly secret db db') :
    evalPlan I db keepAll [] r.data = evalPlan I db' keepAll [] r.data := by
  rw [rewritten_of_ok hr]
  exact evalPlan_eq_of_sealed (h.sealed_rewritten secret plan plan ∅ ⟨r, hr⟩ hs _)
    ((h.raw_rewritten secret plan plan ⟨r, hr⟩).trans ho) I hdb

end Runs

end DataFusion
