/-
The width of lineage maps (`lineage_map` and `column_lineage` in `lineage.rs`): one entry for
each field of the plan's schema.

Nodes that a map is made for expression by expression rely on their schema having a field for
each expression; all others take the width from a schema or from the maps of their inputs.
-/
import Dataglot.Core.LineagePaths

namespace Dataglot
open DataFusion List

theorem length_unknownLineage (width) : (unknownLineage width).length = width := length_replicate

theorem length_passLineage (child width) :
    (passLineage child width).length = width := by
  unfold passLineage
  split_ifs with h
  · exact h
  · exact length_unknownLineage width

theorem length_aggregateLineage (groups exprs schema inputSchema inputMap) :
    (aggregateLineage groups exprs schema inputSchema inputMap).length = schema.length := by
  unfold aggregateLineage
  split_ifs with h
  · exact length_unknownLineage schema.length
  · rw [length_append, length_map, length_map, ← length_append, take_append_drop]
    exact (not_not.mp h).symm

theorem JoinType.length_columns {α β : Type} (type : JoinType) {left right : List α} {left' right' : List β}
    (hl : left.length = left'.length) (hr : right.length = right'.length) (m n m' n') :
    (type.columns left right m n).length = (type.columns left' right' m' n').length := by
  cases type <;> simp [columns, hl, hr]

theorem length_unionLineage (maps : List (List (List InputFieldContribution))) (width) :
    (maps.foldl mergeBranch (unknownLineage width)).length = width := by
  refine foldlRecOn (motive := fun out => out.length = width) maps mergeBranch (length_unknownLineage width) ?_
  intro out ho branch _
  rw [length_mergeBranch, ho]

theorem lt_length_of_inputColumn {schema : List Column} {c : Column} {idx : Nat}
    (h : inputColumn schema c = some idx) : idx < schema.length := by
  unfold inputColumn indexOfColumn at h
  split at h
  next hf =>
    cases h
    exact (findIdx?_eq_some_iff_findIdx_eq.mp hf).1
  next =>
    split at h
    next i hi =>
      cases h
      have hm : idx ∈ (range schema.length).filter fun i => (schema[i]?).any fun f => f.name == c.name := by
        rw [hi]
        exact mem_singleton_self idx
      exact mem_range.mp (mem_filter.mp hm).1
    next => cases h

/-- A plan with schemas as they are computed: a projection has a field for each of its expressions. -/
structure TypedPlan where
  plan : LogicalPlan
  projections : ∀ expr input schema, (LogicalPlan.projection expr input schema).Within plan →
    schema.length = expr.length

namespace PlanData

variable (D : PlanData)

/-- One node, above inputs whose maps have the width of their schemas. -/
theorem length_nodeLineage (kind detail exprs schema)
    {inputs : List LogicalPlan} (h : ∀ q ∈ inputs, (D.lineageMap q).length = (D.planSchema q).length) :
    (D.nodeLineage kind detail exprs schema (inputs.map D.planSchema) (inputs.map D.lineageMap)).length =
      (D.nodeSchema kind detail schema (inputs.map D.planSchema)).length := by
  unfold nodeLineage
  split
  next =>
    split
    next => exact length_aggregateLineage ..
    next => exact length_unknownLineage schema.length
  next =>
    rcases inputs with _ | ⟨left, _ | ⟨right, _ | ⟨_, _⟩⟩⟩
    · exact length_unknownLineage schema.length
    · exact length_unknownLineage schema.length
    · exact (D.joinType detail).length_columns (h left (by simp)) (h right (by simp)) ..
    · exact length_unknownLineage schema.length
  next => exact length_unionLineage ..
  next =>
    dsimp only
    split
    next => exact length_passLineage ..
    next => exact length_unknownLineage _

theorem length_lineageMap (p : TypedPlan) : (D.lineageMap p.plan).length = (D.planSchema p.plan).length := by
  obtain ⟨plan, hplan⟩ := p
  refine LogicalPlan.induct (motive := fun plan => (∀ expr input schema,
    (LogicalPlan.projection expr input schema).Within plan → schema.length = expr.length) →
      (D.lineageMap plan).length = (D.planSchema plan).length) ?_ plan hplan
  intro p ih _ hp
  have hi : ∀ q ∈ p.inputs, (D.lineageMap q).length = (D.planSchema q).length := fun q hq =>
    ih q hq fun expr input schema hw => hp expr input schema (.input hq hw)
  cases p with
  | tableScan => simp [lineageMap, planSchema]
  | filter => exact length_passLineage ..
  | projection expr input schema =>
    rw [lineageMap, planSchema, length_map]
    exact (hp expr input schema .refl).symm
  | subqueryAlias name input =>
    rw [lineageMap, planSchema, length_map]
    exact hi input (mem_singleton_self input)
  | node kind detail exprs inputs schema =>
    rw [lineageMap, planSchema, lineageMaps_eq_map, planSchemas_eq_map]
    exact D.length_nodeLineage kind detail exprs schema hi

/-- Each output field has its own entry, and what an expression looks up in the map of a plan is there. -/
theorem lineage_has_plan_arity (D : PlanData) (p : TypedPlan) :
    (D.lineageMap p.plan).length = (D.planSchema p.plan).length ∧
    (D.columnLineage p.plan).map (·.outputField) = (D.planSchema p.plan).map (·.name) ∧
    (D.columnLineage p.plan).map (·.inputs) = D.lineageMap p.plan ∧
    ∀ q : LogicalPlan, q.Within p.plan → ∀ c idx, inputColumn (D.planSchema q) c = some idx →
      idx < (D.lineageMap q).length := by
  have hl := D.length_lineageMap p
  refine ⟨hl, ?_, ?_, fun q hq c idx hi => ?_⟩
  · conv_rhs => rw [← map_fst_zip hl.ge]
    rw [columnLineage, map_map, map_map]
    rfl
  · conv_rhs => rw [← map_snd_zip hl.le]
    rw [columnLineage, map_map]
    rfl
  · have hq := D.length_lineageMap ⟨q, fun expr input schema hw =>
      p.projections expr input schema (hw.trans hq)⟩
    rw [hq]
    exact lt_length_of_inputColumn hi

end PlanData

end Dataglot
