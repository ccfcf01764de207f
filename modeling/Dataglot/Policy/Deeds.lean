/-
What a stack of enforcers does to a plan: the scans it puts under a filter, and the references to
columns that it replaces by a mask. These are told from the walks themselves, node by node. A rewrite
reports a change exactly when it does one of the two (`transformed_iff`).
-/
import Dataglot.DataFusion.Visits
import Dataglot.Policy.Enforcer
import Dataglot.Policy.MaskWalk

namespace Dataglot
open DataFusion Transformed Except Option

inductive Deed
  | filtered (table : TableReference)
  | masked (column : Column)

/-! ## Row filters -/

/-- The table of a node that row filters look at: a scan, or a scan under an alias. -/
def scanOf : LogicalPlan → Option TableReference
  | .tableScan t _ _ _ => some t
  | .subqueryAlias _ (.tableScan t _ _ _) => some t
  | _ => none

namespace RowFilterEnforcer

variable {T : PredicateTyping} {E : RowFilterEnforcer} {id : Identity}

/-- The walk comes to a scan of the table and changes it. -/
def Filters (T : PredicateTyping) (E : RowFilterEnforcer) (plan : LogicalPlan) (id : Identity) (t : TableReference) :
    Prop :=
  ∃ root node v, Visits (E.visit T id) plan plan root node ∧ scanOf node = some t ∧
    E.visit T id root node = .ok v ∧ v.1.transformed = true

theorem visit_transformed {root node v} (h : E.visit T id root node = .ok v) (hc : v.1.transformed = true) :
    ∃ t, scanOf node = some t ∧ (E.resolvePredicate t id).isSome := by
  unfold visit at h
  split at h
  · split at h
    next predicate hp => exact ⟨_, rfl, by rw [hp]; rfl⟩
    next =>
      cases h
      cases hc
  · split at h
    next predicate hp => exact ⟨_, rfl, by rw [hp]; rfl⟩
    next =>
      cases h
      cases hc
  · cases h
    cases hc

theorem transformed_iff_filters {plan r} (h : E.rewrite T plan id = .ok r) :
    r.transformed = true ↔ ∃ t, E.Filters T plan id t := by
  unfold rewrite at h
  split_ifs at h with he
  · cases h
    refine iff_of_false (by simp [no]) ?_
    rintro ⟨t, root, node, v, -, -, hv, hc⟩
    obtain ⟨t', -, hs⟩ := visit_transformed hv hc
    rw [resolvePredicate_of_isEmpty he] at hs
    cases hs
  · rw [transformed_iff_changesOne plan h]
    constructor
    · rintro ⟨root, node, v, hvi, hv, hc⟩
      obtain ⟨t, hsc, -⟩ := visit_transformed hv hc
      exact ⟨t, root, node, v, hvi, hsc, hv, hc⟩
    · rintro ⟨t, root, node, v, hvi, -, hv, hc⟩
      exact ⟨root, node, v, hvi, hv, hc⟩

end RowFilterEnforcer

/-! ## Masks -/

namespace ColumnMaskingEnforcer

variable {schemaName : Expr → String} {fuel : Nat} {E : ColumnMaskingEnforcer} {id : Identity}

/-- The walk comes to a node whose expressions are masked, and the column stands in one of them and has a mask. -/
def Replaces (schemaName : Expr → String) (fuel : Nat) (E : ColumnMaskingEnforcer) (plan : LogicalPlan)
    (id : Identity) (c : Column) : Prop :=
  ∃ root node, Visits (E.visit schemaName fuel id) plan plan root node ∧ readsForItself node = false ∧
    (∃ e ∈ node.expressions, .column c ∈ e.nodes) ∧ (E.maskOf (aliasTargets root) id c).isSome

theorem visit_transformed_iff {root node v}
    (h : E.visit schemaName fuel id root node = .ok v) : v.1.transformed = true ↔ readsForItself node = false ∧
      ∃ c, (∃ e ∈ node.expressions, .column c ∈ e.nodes) ∧ (E.maskOf (aliasTargets root) id c).isSome := by
  unfold visit at h
  split_ifs at h with hr
  · cases h
    simp [hr, no]
  · simp only [LogicalPlan.mapExpressions, bind_ok_iff, pure_ok_iff] at h
    obtain ⟨out, ⟨es, hes, rfl⟩, rfl⟩ := h
    have hok := mapExprs_ok_iff.mp ⟨es, hes⟩
    have hex : (∃ e ∈ node.expressions, ∃ t,
        E.maskExpr schemaName fuel e (aliasTargets root) id = .ok t ∧ t.transformed = true) ↔
        ∃ e ∈ node.expressions, ∃ c, .column c ∈ e.nodes ∧ (E.maskOf (aliasTargets root) id c).isSome := by
      refine exists_congr fun e => and_congr_right fun he => ?_
      obtain ⟨t, ht⟩ := hok e he
      simp only [ht, ok.injEq, exists_eq_left', maskExpr_transformed ht]
    simp only [map, mapExprs_transformed hes, hex, Bool.eq_false_iff.mpr hr, true_and]
    constructor
    · rintro ⟨e, he, c, hc, hm⟩
      exact ⟨c, ⟨e, he, hc⟩, hm⟩
    · rintro ⟨c, ⟨e, he, hc⟩, hm⟩
      exact ⟨e, he, c, hc, hm⟩

theorem transformed_iff_replaces {plan r} (h : E.rewrite schemaName fuel plan id = .ok r) :
    r.transformed = true ↔ ∃ c, E.Replaces schemaName fuel plan id c := by
  unfold rewrite at h
  split_ifs at h with he
  · cases h
    refine iff_of_false (by simp [no]) ?_
    rintro ⟨c, root, node, -, -, -, hm⟩
    rw [maskOf_of_isEmpty he] at hm
    cases hm
  · rw [transformed_iff_changesOne plan h]
    constructor
    · rintro ⟨root, node, v, hvi, hv, hch⟩
      obtain ⟨hr, c, hc, hm⟩ := (visit_transformed_iff hv).mp hch
      exact ⟨c, root, node, hvi, hr, hc, hm⟩
    · rintro ⟨c, root, node, hvi, hr, hc, hm⟩
      obtain ⟨v, hv⟩ := hvi.exists_ok h
      exact ⟨root, node, v, hvi, hv, (visit_transformed_iff hv).mpr ⟨hr, c, hc, hm⟩⟩

end ColumnMaskingEnforcer

/-! ## Stacks -/

def ColumnMaskingEnforcer.Does (D : Engine) (E : ColumnMaskingEnforcer) (plan : LogicalPlan) (id : Identity) :
    Deed → Prop
  | .masked c => E.Replaces D.schemaName D.fuel plan id c
  | .filtered _ => False

def RowFilterEnforcer.Does (D : Engine) (E : RowFilterEnforcer) (plan : LogicalPlan) (id : Identity) : Deed → Prop
  | .filtered t => E.Filters D.typing plan id t
  | .masked _ => False

/-- The masks of the session's policies, and then its row filters, unless there is nothing to resolve. -/
def TagBasedEnforcer.Does (D : Engine) (E : TagBasedEnforcer) (plan : LogicalPlan) (id : Identity) (deed : Deed) :
    Prop :=
  ¬(E.governance.tagCount = 0 ∨ E.governance.policyCount = 0 ∨ E.governance.annotatedColumnCount = 0) ∧
    ∃ masks filters, ColumnMaskingEnforcer.new (E.resolveForIdentity id).1 = .ok masks ∧
      RowFilterEnforcer.new (E.resolveForIdentity id).2 = .ok filters ∧
      (masks.Does D plan id deed ∨
        ∃ masked, masks.rewrite D.schemaName D.fuel plan id = .ok masked ∧ filters.Does D masked.data id deed)

namespace Enforcer

mutual

/-- Each layer acts on what the layers before it have made of the plan. -/
def Does (D : Engine) : Enforcer → LogicalPlan → Identity → Deed → Prop
  | .masks E, plan, id, deed => E.Does D plan id deed
  | .rowFilters E, plan, id, deed => E.Does D plan id deed
  | .tags E, plan, id, deed => E.Does D plan id deed
  | .composite inner, plan, id, deed => DoesInner D inner plan id deed
  | .mutable current, plan, id, deed => current.Does D plan id deed
  | .noop, _, _, _ => False
  | .accessDeny _, _, _, _ => False
  | .grant _, _, _, _ => False

def DoesInner (D : Engine) : List Enforcer → LogicalPlan → Identity → Deed → Prop
  | [], _, _, _ => False
  | e :: inner, plan, id, deed =>
    e.Does D plan id deed ∨ ∃ t, e.rewrite D plan id = .ok t ∧ DoesInner D inner t.data id deed

end

end Enforcer

/-! ## What the flag says -/

section Flag

variable {D : Engine} {id : Identity} {plan : LogicalPlan} {r : Transformed LogicalPlan}

theorem ColumnMaskingEnforcer.transformed_iff {E : ColumnMaskingEnforcer}
    (h : E.rewrite D.schemaName D.fuel plan id = .ok r) : r.transformed = true ↔ ∃ deed, E.Does D plan id deed := by
  rw [transformed_iff_replaces h]
  constructor
  · exact fun ⟨c, hc⟩ => ⟨.masked c, hc⟩
  · rintro ⟨deed, hd⟩
    cases deed with
    | masked c => exact ⟨c, hd⟩
    | filtered t => exact hd.elim

theorem RowFilterEnforcer.transformed_iff {E : RowFilterEnforcer} (h : E.rewrite D.typing plan id = .ok r) :
    r.transformed = true ↔ ∃ deed, E.Does D plan id deed := by
  rw [transformed_iff_filters h]
  constructor
  · exact fun ⟨t, ht⟩ => ⟨.filtered t, ht⟩
  · rintro ⟨deed, hd⟩
    cases deed with
    | masked c => exact hd.elim
    | filtered t => exact ⟨t, hd⟩

/-- Two passes do what the first does, and what the second does to what the first has made. -/
theorem passes_transformed_iff {masks : ColumnMaskingEnforcer} {filters : RowFilterEnforcer}
    {masked filtered} (hm : masks.rewrite D.schemaName D.fuel plan id = .ok masked)
    (hf : filters.rewrite D.typing masked.data id = .ok filtered) :
    (masked.transformed || filtered.transformed) = true ↔ ∃ deed, masks.Does D plan id deed ∨
      ∃ masked, masks.rewrite D.schemaName D.fuel plan id = .ok masked ∧ filters.Does D masked.data id deed := by
  rw [Bool.or_eq_true, masks.transformed_iff hm, filters.transformed_iff hf, ← exists_or]
  simp only [hm, ok.injEq, exists_eq_left']

theorem TagBasedEnforcer.transformed_iff {E : TagBasedEnforcer}
    (h : E.rewrite D.typing D.schemaName D.fuel plan id = .ok r) :
    r.transformed = true ↔ ∃ deed, E.Does D plan id deed := by
  unfold TagBasedEnforcer.rewrite at h
  simp only at h
  split_ifs at h with hn he
  · cases h
    exact iff_of_false (by simp [no]) fun ⟨deed, hd, _⟩ => hd hn
  · -- without masks and without filters both passes leave the plan as it is
    cases h
    refine iff_of_false (by simp [no]) ?_
    rintro ⟨deed, -, masks, filters, hm, hf, hd⟩
    rw [List.isEmpty_iff.mp he.1] at hm
    rw [List.isEmpty_iff.mp he.2] at hf
    cases hm
    cases hf
    have hma : ColumnMaskingEnforcer.rewrite D.schemaName D.fuel ⟨∅, none⟩ plan id = .ok (.no plan) := rfl
    have hfi : RowFilterEnforcer.rewrite D.typing ⟨∅⟩ plan id = .ok (.no plan) := rfl
    have hfl := (passes_transformed_iff hma hfi).mpr ⟨deed, hd⟩
    cases hfl
  · simp only [applyResolved, bind_ok_iff, mapError_ok_iff, pure_ok_iff] at h
    obtain ⟨masks, hm, filters, hf, masked, hma, filtered, hfi, rfl⟩ := h
    rw [passes_transformed_iff hma hfi]
    refine exists_congr fun deed => ?_
    simp only [TagBasedEnforcer.Does, hn, not_false_eq_true, true_and, hm, hf, ok.injEq,
      exists_and_left, exists_eq_left']

end Flag

namespace Enforcer

variable {D : Engine} {id : Identity}

mutual

/-- **What a change is**: a stack of enforcers reports that it changed a plan when it put a scan under a filter or
replaced a reference to a column. -/
theorem transformed_iff : ∀ (e : Enforcer) {plan r},
    e.rewrite D plan id = .ok r → (r.transformed = true ↔ ∃ deed, e.Does D plan id deed)
  | .noop, plan, r, h => by
    rw [rewrite, ok.injEq] at h
    subst h
    simp [Does, no]
  | .accessDeny E, plan, r, h => by
    rw [rewrite] at h
    obtain ⟨rfl, -⟩ := AccessDenyEnforcer.rewrite_ok_iff.mp h
    simp [Does, no]
  | .grant E, plan, r, h => by
    rw [rewrite] at h
    rw [E.eq_no_of_rewrite h]
    simp [Does, no]
  | .tags E, plan, r, h => by
    rw [rewrite] at h
    simp only [Does, E.transformed_iff h]
  | .masks E, plan, r, h => by
    rw [rewrite] at h
    simp only [Does, E.transformed_iff h]
  | .rowFilters E, plan, r, h => by
    rw [rewrite] at h
    simp only [Does, E.transformed_iff h]
  | .composite inner, plan, r, h => by
    rw [rewrite] at h
    simp only [Does, transformed_inner_iff inner h]
  | .mutable current, plan, r, h => by
    rw [rewrite] at h
    simp only [Does, transformed_iff current h]

theorem transformed_inner_iff : ∀ (inner : List Enforcer) {plan r},
    rewriteInner D inner plan id false = .ok r → (r.transformed = true ↔ ∃ deed, DoesInner D inner plan id deed)
  | [], plan, r, h => by
    rw [rewriteInner, ok.injEq] at h
    subst h
    simp [DoesInner]
  | e :: inner, plan, r, h => by
    obtain ⟨t, ht, t', ht', rfl⟩ := rewriteInner_cons_ok.mp h
    simp only [Bool.or_eq_true, transformed_iff e ht, transformed_inner_iff inner ht', ← exists_or, DoesInner, ht,
      ok.injEq, exists_eq_left']

end

end Enforcer

/-! ## Only qualified references are replaced -/

theorem ColumnMaskingEnforcer.Does.relation {D} {E : ColumnMaskingEnforcer} {plan id c}
    (h : E.Does D plan id (.masked c)) : ∃ rel, c.relation = some rel := by
  obtain ⟨root, node, -, -, -, hm⟩ := h
  unfold maskOf at hm
  split at hm
  next => cases hm
  next rel hr => exact ⟨rel, hr⟩

theorem TagBasedEnforcer.Does.relation {D} {E : TagBasedEnforcer} {plan id c} (h : E.Does D plan id (.masked c)) :
    ∃ rel, c.relation = some rel := by
  obtain ⟨-, masks, filters, -, -, h | ⟨masked, -, h⟩⟩ := h
  · exact h.relation
  · exact h.elim

namespace Enforcer

variable {D : Engine} {id : Identity} {c : Column}

mutual

theorem Does.relation : ∀ {e : Enforcer} {plan}, e.Does D plan id (.masked c) → ∃ rel, c.relation = some rel
  | .masks E, plan, h => by
    rw [Does] at h
    exact h.relation
  | .tags E, plan, h => by
    rw [Does] at h
    exact h.relation
  | .rowFilters E, plan, h => by
    rw [Does] at h
    exact h.elim
  | .composite inner, plan, h => by
    rw [Does] at h
    exact DoesInner.relation h
  | .mutable current, plan, h => by
    rw [Does] at h
    exact Does.relation h
  | .noop, plan, h | .accessDeny _, plan, h | .grant _, plan, h => by
    rw [Does] at h
    exact h.elim

theorem DoesInner.relation : ∀ {inner plan}, DoesInner D inner plan id (.masked c) → ∃ rel, c.relation = some rel
  | [], plan, h => by
    rw [DoesInner] at h
    exact h.elim
  | e :: inner, plan, h => by
    rw [DoesInner] at h
    rcases h with h | ⟨t, -, h⟩
    · exact Does.relation h
    · exact DoesInner.relation h

end

end Enforcer

/-! ## Refusals -/

namespace Enforcer

mutual

/-- The rewrite fails at a layer that denies access, for want of permission. -/
def Refuses (D : Engine) : Enforcer → LogicalPlan → Identity → Prop
  | .accessDeny E, plan, id => ∃ err, E.rewrite plan id = .error err
  | .grant E, plan, id => ∃ err, E.rewrite plan id = .error err
  | .composite inner, plan, id => RefusesInner D inner plan id
  | .mutable current, plan, id => current.Refuses D plan id
  | .noop, _, _ => False
  | .tags _, _, _ => False
  | .masks _, _, _ => False
  | .rowFilters _, _, _ => False

def RefusesInner (D : Engine) : List Enforcer → LogicalPlan → Identity → Prop
  | [], _, _ => False
  | e :: inner, plan, id =>
    e.Refuses D plan id ∨ ∃ t, e.rewrite D plan id = .ok t ∧ RefusesInner D inner t.data id

end

variable {D : Engine} {id : Identity}

theorem not_refusesInner : ∀ {inner plan},
    (∀ e ∈ inner, ∀ plan, ¬ e.Refuses D plan id) → ¬ RefusesInner D inner plan id
  | [], plan, _ => by simp [RefusesInner]
  | e :: inner, plan, h => by
    rw [RefusesInner]
    rintro (hr | ⟨t, -, hr⟩)
    · exact h e List.mem_cons_self plan hr
    · exact not_refusesInner (fun e he => h e (List.mem_cons_of_mem _ he)) hr

end Enforcer

theorem Layers.not_refuses {D} (layers : Layers) (plan id) :
    ¬ layers.enforcer.Refuses D plan id := by
  have hl : ∀ e ∈ layers.list, ∀ plan, ¬ e.Refuses D plan id := by
    intro e he plan
    simp only [list, List.mem_append, mem_toList, map_eq_some_iff] at he
    rcases he with (⟨E, -, rfl⟩ | ⟨E, -, rfl⟩) | ⟨E, -, rfl⟩ <;> simp [Enforcer.Refuses]
  unfold enforcer
  split
  next => simp [Enforcer.Refuses]
  next e h => exact hl e (by simp [h]) plan
  next inner _ _ =>
    rw [Enforcer.Refuses]
    exact Enforcer.not_refusesInner hl

/-! ## Refusals are reported -/

namespace AccessDenyEnforcer

variable {E : AccessDenyEnforcer} {plan : LogicalPlan} {id : Identity}

theorem action_of_mem_explain {d} (h : d ∈ E.explain plan id) : d.action = .deny := by
  unfold explain at h
  simp only at h
  split_ifs at h
  · cases h
  rcases List.mem_append.mp (mem_of_mem_pushDecisions h) with h | h
  · obtain ⟨t, -, h⟩ := List.mem_flatMap.mp h
    obtain ⟨denial, -, rfl⟩ := List.mem_map.mp h
    rfl
  · obtain ⟨c, -, h⟩ := List.mem_flatMap.mp h
    split at h
    · cases h
    · obtain ⟨denial, -, rfl⟩ := List.mem_map.mp h
      rfl

theorem explainTables_eq_nil : explainTables plan (E.denials.filter fun d => d.appliesTo id) = [] ↔
    ∀ t, Scanned t plan → ¬ E.DeniesTable id t := by
  simp only [explainTables, List.flatMap_eq_nil_iff, List.map_eq_nil_iff, List.filter_eq_nil_iff, List.mem_filter,
    mem_scans_iff_scanned, Bool.and_eq_true, isNone_iff_eq_none, tableMatches_iff]
  refine forall_congr' fun t => imp_congr_right fun _ => ?_
  exact ⟨fun h ⟨d, hd, ha, hc, ht⟩ => h d ⟨hd, ha⟩ ⟨hc, ht⟩, fun h d hd hm => h ⟨d, hd.1, hd.2, hm.1, hm.2⟩⟩

theorem explainColumns_eq_nil : explainColumns plan (E.denials.filter fun d => d.appliesTo id) = [] ↔
    ∀ c, Reads c plan → ¬ E.DeniesColumn id c := by
  simp only [explainColumns, List.flatMap_eq_nil_iff, mem_collectPlanColumns]
  refine forall_congr' fun c => imp_congr_right fun _ => ?_
  unfold DeniesColumn
  cases c.relation with
  | none => simp
  | some rel =>
    simp only [List.map_eq_nil_iff, List.filter_eq_nil_iff, List.mem_filter, Bool.and_eq_true, beq_iff_eq,
      tableMatches_iff, some.injEq, exists_eq_left']
    constructor
    · rintro h ⟨d, hd, ha, hc, ht⟩
      exact h d ⟨hd, ha⟩ ⟨hc, ht⟩
    · exact fun h d hd hm => h ⟨d, hd.1, hd.2, hm.1, hm.2⟩

theorem explain_eq_nil_iff : E.explain plan id = [] ↔ ∃ r, E.rewrite plan id = .ok r := by
  simp only [rewrite_ok_iff, exists_eq_left, ← explainTables_eq_nil, ← explainColumns_eq_nil]
  unfold explain
  simp only
  split_ifs with he
  · rw [List.isEmpty_iff.mp he]
    simp [explainTables, explainColumns]
    intro c _
    cases c.relation <;> rfl
  · rw [pushDecisions_eq_nil, List.append_eq_nil_iff]

end AccessDenyEnforcer

namespace GrantEnforcer

variable {E : GrantEnforcer} {plan : LogicalPlan} {id : Identity}

theorem action_of_mem_explain {d} (h : d ∈ E.explain plan id) : d.action = .deny := by
  unfold explain at h
  split_ifs at h
  · cases h
  obtain ⟨t, -, h⟩ := List.mem_filterMap.mp (mem_of_mem_pushDecisions h)
  obtain ⟨err, -, rfl⟩ := map_eq_some_iff.mp h
  rfl

theorem explain_eq_nil_iff : E.explain plan id = [] ↔ ∃ r, E.rewrite plan id = .ok r := by
  unfold explain
  split_ifs with hf
  · have hr : E.rewrite plan id = .ok (.no plan) := by
      unfold rewrite
      rw [if_pos hf]
      rfl
    simp [hr]
  · rw [rewrite_ok_iff_of_checked hf, pushDecisions_eq_nil]
    simp only [List.filterMap_eq_nil_iff, map_eq_none_iff, mem_scans_iff_scanned]

end GrantEnforcer

end Dataglot
