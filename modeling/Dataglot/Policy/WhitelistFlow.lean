/-
Column whitelists keep hidden columns out of a query's result, where the walk
finds the references to them.

The walk prunes a hidden column that a projection lists by itself and refuses
every other use of one, so a plan it accepts reads none of the hidden columns
that it finds. It finds them by the qualifier of a reference and one alias map for
the whole plan; SQL's scopes may say otherwise, and an outer reference, an
unqualified one or a field that no projection names is not looked at.
-/
import Dataglot.DataFusion.FlowRewrite
import Dataglot.Policy.Whitelist

namespace Dataglot
open DataFusion Except List

namespace ColumnWhitelistEnforcer

variable {S : ProjectionSchema} {E : ColumnWhitelistEnforcer} {id : Identity} {aliasMap : AliasMap}

def Hides (E : ColumnWhitelistEnforcer) (id : Identity) (t : TableReference) (column : String) : Prop :=
  (∃ cand ∈ matchCandidates t, ∃ r ∈ E.rules.rulesAt cand, r.applies id) ∧
    ∀ cand ∈ matchCandidates t, ∀ r ∈ E.rules.rulesAt cand, r.applies id → column ∉ r.rule

/-- The references that the walk takes for references to hidden columns. -/
def Finds (E : ColumnWhitelistEnforcer) (id : Identity) (root _node : LogicalPlan) (c : Column) : Prop :=
  E.isHidden c (aliasTargets root) id

/-! ## What an accepted node reads -/

theorem exprTouchesHidden_eq_false {e} (h : E.exprTouchesHidden e aliasMap id = false) {c}
    (hc : .column c ∈ e.sources) : E.isHidden c aliasMap id = false := by
  have hm : c ∈ e.columns := Expr.mem_columns.mpr (Expr.column_mem_sources.mp hc)
  exact Bool.eq_false_iff.mpr (any_eq_false.mp h c hm)

theorem keepVisible_ok : ∀ {es kept}, E.keepVisible aliasMap id es = .ok kept →
    ∀ e ∈ kept, e ∈ es ∧ E.exprTouchesHidden e aliasMap id = false
  | [], _, h => by
    cases h
    exact nofun
  | e :: es, kept, h => by
    have later : ∀ {kept'}, E.keepVisible aliasMap id es = .ok kept' → ∀ e' ∈ kept', e' ∈ e :: es ∧
        E.exprTouchesHidden e' aliasMap id = false := fun h' e' he' => by
      obtain ⟨hm, hno⟩ := keepVisible_ok h' e' he'
      exact ⟨mem_cons_of_mem _ hm, hno⟩
    -- the expression is kept, in front of those that are kept later
    have first : E.exprTouchesHidden e aliasMap id = false →
        (do let kept' ← E.keepVisible aliasMap id es; return e :: kept') = ok kept →
        ∀ e' ∈ kept, e' ∈ e :: es ∧ E.exprTouchesHidden e' aliasMap id = false := fun hno h' => by
      obtain ⟨kept', hk', hp⟩ := bind_ok_iff.mp h'
      cases hp
      rw [forall_mem_cons]
      exact ⟨⟨mem_cons_self, hno⟩, later hk'⟩
    unfold keepVisible at h
    split at h
    next => cases ‹_ = ([] : List Expr)›
    next c es' heq =>
      obtain ⟨rfl, rfl⟩ := cons.inj heq
      by_cases hc : E.isHidden c aliasMap id
      · rw [if_pos hc] at h
        exact later h
      · rw [if_neg hc] at h
        exact first (by simp [exprTouchesHidden, Expr.columns, Expr.nodes, hc]) h
    next e' es' hne heq =>
      obtain ⟨rfl, rfl⟩ := cons.inj heq
      by_cases hc : E.exprTouchesHidden e aliasMap id
      · rw [if_pos hc] at h
        cases h
      · rw [if_neg hc] at h
        exact first (Bool.eq_false_iff.mpr hc) h

/-- An accepted node stays the operator it is, with expressions of its own that touch nothing hidden. -/
theorem enforceNode_ok {node t} (h : E.enforceNode S node aliasMap id = .ok t) : SameOperator node t.data ∧
      ∀ e ∈ t.data.expressions, e ∈ node.expressions ∧ E.exprTouchesHidden e aliasMap id = false := by
  unfold enforceNode at h
  split at h
  next expr input schema =>
    obtain ⟨kept, hk, h⟩ := bind_ok_iff.mp h
    by_cases hem : kept.isEmpty
    · rw [if_pos hem] at h
      cases h
    · rw [if_neg hem] at h
      simp only [projectionTryNew, bind_ok_iff, pure_ok_iff] at h
      obtain ⟨_, ⟨schema', -, rfl⟩, rfl⟩ := h
      exact ⟨⟨rfl, rfl, fun _ _ => rfl, fun _ _ => rfl⟩, keepVisible_ok hk⟩
  next =>
    by_cases ha : node.expressions.any fun e => E.exprTouchesHidden e aliasMap id
    · rw [if_pos ha] at h
      cases h
    · rw [if_neg ha] at h
      cases h
      refine ⟨.refl _, fun e he => ⟨he, ?_⟩⟩
      exact Bool.eq_false_iff.mpr fun ht => ha (any_eq_true.mpr ⟨e, he, ht⟩)

/-- The walk withholds the references it takes for hidden ones. -/
theorem withholds_visit : Withholds (E.visit S id) (E.Finds id) where
  continues hv := by
    obtain ⟨out, -, hp⟩ := bind_ok_iff.mp hv
    cases hp
    rfl
  sameOperator hv := by
    obtain ⟨out, ho, hp⟩ := bind_ok_iff.mp hv
    cases hp
    exact (enforceNode_ok ho).1
  sources {root node v} hv e he s hs := by
    obtain ⟨out, ho, hp⟩ := bind_ok_iff.mp hv
    cases hp
    obtain ⟨hm, hno⟩ := (enforceNode_ok ho).2 e he
    refine ⟨e, hm, hs, ?_⟩
    rintro c rfl hf
    rw [Finds, exprTouchesHidden_eq_false hno hs] at hf
    cases hf
  uniform _ _ _ := rfl

theorem isHidden_of_isEmpty (h : E.rules.entries.isEmpty) (c) : E.isHidden c aliasMap id = false := by
  have hn : ∀ rel, E.visibleColumns rel aliasMap id = none := fun rel =>
    visibleColumns_eq_none_iff.mpr fun cand _ r hr => by
      rw [RuleMap.rulesAt_of_isEmpty h] at hr
      cases hr
  unfold isHidden
  cases c.relation with
  | none => rfl
  | some rel => simp only [hn rel]

end ColumnWhitelistEnforcer

end Dataglot
