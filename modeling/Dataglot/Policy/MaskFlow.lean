/-
Masks that are constants keep masked columns out of a query's result, where the
walk finds the references to them.

The rewrite takes the references it finds out of a plan and puts nothing in that
reads anything. What is left to be asked of a plan is that its other references,
those to the query around a subquery among them, and the rows it returns or hands
on whole have none of the masked columns.
-/
import Dataglot.DataFusion.FlowRewrite
import Dataglot.Policy.MaskFacts

namespace Dataglot
open DataFusion Expr

/-! ## What a masked expression reads -/

section Sources

variable {lookup : Column → Option Expr} {fuel : Nat}

theorem sources_aliasBack (schemaName original e) :
    (aliasBack schemaName original e).sources = e.sources := by
  unfold aliasBack
  split <;> rfl

/-- What the masks read are columns, and none of these has a mask itself. -/
def Unnested (lookup : Column → Option Expr) : Prop :=
  ∀ c m, lookup c = some m → ∀ s ∈ m.sources, ∃ c', s = .column c' ∧ lookup c' = none

/-- What stands in the place of a column: its mask, if it has one. -/
def standIn (lookup : Column → Option Expr) (c : Column) : Expr := (lookup c).getD (.column c)

variable {e : Expr}

theorem replacement_of_unnested (hu : Unnested lookup) {c}
    (hav : Available (maskHit lookup fuel) e) (hc : .column c ∈ e.nodes) :
    replacement (maskHit lookup fuel) c = standIn lookup c := by
  unfold standIn
  cases hm : lookup c with
  | none => rw [replacement_of_lookup_none hm, Option.getD_none]
  | some m =>
    rw [Option.getD_some]
    rcases replacement_of_lookup hav hc hm with ⟨c', rfl, hr⟩ | ⟨-, k, hr⟩
    · exact hr
    · rw [hr]
      refine (substColumns_congr fun c' hc' => ?_).trans (substColumns_column m)
      obtain ⟨_, ⟨⟩, hn⟩ := hu c m hm _ (column_mem_sources.mpr hc')
      exact replacement_of_lookup_none hn

theorem substColumns_of_unnested (hu : Unnested lookup) (hav : Available (maskHit lookup fuel) e) :
    e.substColumns (replacement (maskHit lookup fuel)) = e.substColumns (standIn lookup) :=
  substColumns_congr fun _ hc => replacement_of_unnested hu hav hc

theorem sources_maskedExpr {schemaName} (hu : Unnested lookup)
    (hav : (∃ c, e = .column c) ∨ Available (maskHit lookup fuel) e) :
    (maskedExpr schemaName fuel lookup e).sources = e.sources.flatMap (Source.substituted (standIn lookup)) := by
  by_cases hc : ∃ c, e = .column c
  · obtain ⟨c, rfl⟩ := hc
    cases hm : lookup c <;> simp [maskedExpr, standIn, hm, sources, Source.substituted]
  · rw [maskedExpr_of_ne_column (not_exists.mp hc), sources_aliasBack,
      substColumns_of_unnested hu (hav.resolve_left hc), sources_substColumns]

theorem mem_sources_maskedExpr {schemaName} (hu : Unnested lookup)
    (hav : (∃ c, e = .column c) ∨ Available (maskHit lookup fuel) e) {s}
    (hs : s ∈ (maskedExpr schemaName fuel lookup e).sources) :
    (s ∈ e.sources ∨ ∃ c m, lookup c = some m ∧ s ∈ m.sources) ∧ ∀ c, s = .column c → lookup c = none := by
  rw [sources_maskedExpr hu hav] at hs
  obtain ⟨s₀, hs₀, hs⟩ := List.mem_flatMap.mp hs
  cases s₀ with
  | column c =>
    simp only [Source.substituted, standIn] at hs
    cases hm : lookup c with
    | some m =>
      rw [hm, Option.getD_some] at hs
      obtain ⟨c', rfl, hn⟩ := hu c m hm s hs
      exact ⟨.inr ⟨c, m, hm, hs⟩, fun _ h => by cases h; exact hn⟩
    | none =>
      rw [hm, Option.getD_none] at hs
      obtain rfl := List.mem_singleton.mp hs
      exact ⟨.inl hs₀, fun _ h => by cases h; exact hm⟩
  | outer c | values q | existence q =>
    obtain rfl := List.mem_singleton.mp hs
    exact ⟨.inl hs₀, by simp⟩

end Sources

namespace ColumnMaskingEnforcer

variable {schemaName : Expr → String} {fuel : Nat} {E : ColumnMaskingEnforcer} {id : Identity}

/-- The masks are constants: none reads anything. -/
def Constant (E : ColumnMaskingEnforcer) : Prop := ∀ k, ∀ r ∈ E.masks.rulesAt k, r.rule.sources = []

variable {aliasMap : AliasMap}

theorem mem_rulesAt_of_maskOf {c m} (hm : E.maskOf aliasMap id c = some m) :
    ∃ k, ∃ r ∈ E.masks.rulesAt k, r.rule = m := by
  unfold maskOf at hm
  split at hm
  next => cases hm
  next rel =>
    obtain ⟨r, hr, rfl⟩ := mem_of_lookupMask hm
    obtain ⟨cand, -, hr⟩ := List.mem_flatMap.mp hr
    exact ⟨_, r, (List.mem_filter.mp hr).1, rfl⟩

theorem sources_of_maskOf (h : E.Constant) (c m)
    (hm : E.maskOf aliasMap id c = some m) : m.sources = [] := by
  obtain ⟨k, r, hr, rfl⟩ := mem_rulesAt_of_maskOf hm
  exact h k r hr

theorem unnested_of_constant (h : E.Constant) : Unnested (E.maskOf aliasMap id) := by
  intro c m hm s hs
  rw [sources_of_maskOf h c m hm] at hs
  cases hs

theorem endsAt_of_unnested {root} (h : Unnested (E.maskOf (aliasTargets root) id)) (outer node) : E.EndsAt id root outer node := by
  intro _ e _ _ c _ m hm
  refine .further fun c' hc' m' hm' => ?_
  obtain ⟨_, ⟨⟩, hn⟩ := h c m hm _ (column_mem_sources.mpr hc')
  rw [hn] at hm'
  cases hm'

/-! ## The rewritten plan -/

/-- The references of a node that the rewrite finds a mask for. -/
def Answers (E : ColumnMaskingEnforcer) (id : Identity) (root node : LogicalPlan) (c : Column) : Prop :=
  readsForItself node = false ∧ E.FoundBy id root c

theorem mem_sources_maskedAt (h : E.Constant) {root node e}
    (hok : ∃ t, E.maskAt schemaName fuel id root node e = .ok t) {s}
    (hs : s ∈ (E.maskedAt schemaName fuel id root node e).sources) :
    s ∈ e.sources ∧ ∀ c, s = .column c → ¬ E.Answers id root node c := by
  unfold maskAt at hok
  unfold maskedAt at hs
  unfold Answers
  cases hr : readsForItself node with
  | true =>
    rw [hr, if_pos rfl] at hs
    exact ⟨hs, by simp⟩
  | false =>
    rw [hr, if_neg Bool.false_ne_true] at hs hok
    obtain ⟨hs, hn⟩ := mem_sources_maskedExpr (unnested_of_constant h) (maskExpr_ok_iff.mp hok) hs
    have hs : s ∈ e.sources := hs.resolve_right fun ⟨c, m, hm, hs⟩ => by
      rw [sources_of_maskOf h c m hm] at hs
      cases hs
    refine ⟨hs, ?_⟩
    rintro c rfl ⟨-, hf⟩
    obtain ⟨m, hm⟩ := exists_maskOf_iff.mpr hf
    rw [hn c rfl] at hm
    cases hm

/-- Masking with constants withholds the columns that have a mask. -/
theorem withholds_visit (h : E.Constant) : Withholds (E.visit schemaName fuel id) (E.Answers id) where
  continues hv := (expressionWise_visit.visits hv).1
  sameOperator hv := by
    obtain ⟨-, es, -, heq⟩ := expressionWise_visit.visits hv
    rw [heq]
    exact sameOperator_withNewExpressions _ _
  sources {root node v} hv e' he' s hs := by
    obtain ⟨-, es, hes, heq⟩ := expressionWise_visit.visits hv
    rw [heq, LogicalPlan.expressions_withNewExpressions (mapExprs_length hes),
      mapExprs_data (fun e _ t ht => maskAt_data ht) hes] at he'
    obtain ⟨e, he, rfl⟩ := List.mem_map.mp he'
    exact ⟨e, he, mem_sources_maskedAt h (mapExprs_ok_iff.mp ⟨es, hes⟩ e he) hs⟩
  uniform root node es := by
    funext c
    unfold Answers
    rw [readsForItself_withNewExpressions]

end ColumnMaskingEnforcer

end Dataglot
