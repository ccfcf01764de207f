/-
`POST /policy/explain` (`policy_explain.rs`): the decisions that apply to a query, as the server's
enforcer reports them, without running it. The enforcer is the one that `compose_policy_enforcer`
puts together at boot: denials and grants in front of what the rule store publishes.

What is published sits behind the mutable wrapper, which does not hand `explain` on. The endpoint
reports denials, and all of them; it reports no mask and no row filter.
-/
import Dataglot.Policy.Deeds
import Dataglot.Server.Identity

namespace Dataglot
open DataFusion Enforcer List

/-! ## The server's stack -/

def buildAccessDenyEnforcer (denials : List AccessDenial) : Option AccessDenyEnforcer :=
  if denials.isEmpty then none else some (.new denials)

/-- `compose_policy_enforcer`, over what the rule store publishes. -/
def composePolicyEnforcer (published : Enforcer) (denials : List AccessDenial) (grantEnforcer : Option GrantEnforcer) :
    Enforcer :=
  let storeEnforcer := Enforcer.mutable published
  let layers := ((buildAccessDenyEnforcer denials).map Enforcer.accessDeny).toList ++
    (grantEnforcer.map Enforcer.grant).toList
  if layers.isEmpty then storeEnforcer else .composite (layers ++ [storeEnforcer])

/-! ## The endpoint -/

structure ExplainRequest where
  sql : String
  user : Option String

structure DecisionJson where
  action : String
  resource : String
  detail : String
  deriving DecidableEq, Repr

structure ExplainResponse where
  user : Option String
  groups : List String
  decisions : List DecisionJson

structure ExplainState where
  createLogicalPlan : String → Except DataFusionError LogicalPlan
  enforcer : Enforcer
  identities : HashMap IdentityProfileConfig
  roles : HashMap RoleConfig

def computeExplain (D : Engine) (state : ExplainState) (req : ExplainRequest) : Except String ExplainResponse := do
  let identity := resolveIdentityWithRoles (req.user.getD "") state.identities state.roles
  let plan ← (state.createLogicalPlan req.sql).mapError fun e => "could not plan SQL: " ++ errorText e
  let decisions := (state.enforcer.explain D plan identity).map fun d => ⟨d.action.asStr, d.resource, d.detail⟩
  return ⟨identity.user, identity.orgGroups, decisions⟩

/-! ## Layer by layer -/

section Stack

variable {D : Engine} {plan : LogicalPlan} {id : Identity} {published : Enforcer} {denials : List AccessDenial}
  {grantEnforcer : Option GrantEnforcer}

/-- The layers in front of the store's. -/
def accessLayers (denials : List AccessDenial) (grantEnforcer : Option GrantEnforcer) : List Enforcer :=
  ((buildAccessDenyEnforcer denials).map Enforcer.accessDeny).toList ++ (grantEnforcer.map Enforcer.grant).toList

theorem composePolicyEnforcer_eq : composePolicyEnforcer published denials grantEnforcer =
    if (accessLayers denials grantEnforcer).isEmpty then .mutable published
    else .composite (accessLayers denials grantEnforcer ++ [.mutable published]) := rfl

theorem mem_accessLayers {e} (h : e ∈ accessLayers denials grantEnforcer) :
    (∃ E, e = .accessDeny E) ∨ ∃ E, e = .grant E := by
  simp only [accessLayers, mem_append, Option.mem_toList, Option.map_eq_some_iff] at h
  rcases h with ⟨E, -, rfl⟩ | ⟨E, -, rfl⟩
  · exact .inl ⟨E, rfl⟩
  · exact .inr ⟨E, rfl⟩

theorem explain_composePolicyEnforcer : (composePolicyEnforcer published denials grantEnforcer).explain D plan id =
    (accessLayers denials grantEnforcer).flatMap (explain D plan id) := by
  rw [composePolicyEnforcer_eq]
  split_ifs with he
  · rw [isEmpty_iff.mp he, explain, flatMap_nil]
  · rw [explain, explainInner_eq, flatMap_append, flatMap_singleton, explain,
      append_nil]

/-- An access layer refuses a query when it has something to report, and lets the others through as they are. -/
structure AccessSpec (D : Engine) (e : Enforcer) (plan : LogicalPlan) (id : Identity) : Prop where
  refuses : e.Refuses D plan id ↔ e.explain D plan id ≠ []
  passes : e.explain D plan id = [] → e.rewrite D plan id = .ok (.no plan)
  denies : ∀ d ∈ e.explain D plan id, d.action = .deny

theorem accessSpec {e} (h : e ∈ accessLayers denials grantEnforcer) : AccessSpec D e plan id := by
  rcases mem_accessLayers h with ⟨E, rfl⟩ | ⟨E, rfl⟩
  · refine ⟨?_, fun hn => ?_, fun d hd => ?_⟩
    · rw [Refuses, explain, Ne, E.explain_eq_nil_iff, Except.not_exists_ok_iff]
    · rw [explain, E.explain_eq_nil_iff] at hn
      obtain ⟨r, hr⟩ := hn
      obtain ⟨rfl, -⟩ := AccessDenyEnforcer.rewrite_ok_iff.mp hr
      rw [rewrite, hr]
    · rw [explain] at hd
      exact E.action_of_mem_explain hd
  · refine ⟨?_, fun hn => ?_, fun d hd => ?_⟩
    · rw [Refuses, explain, Ne, E.explain_eq_nil_iff, Except.not_exists_ok_iff]
    · rw [explain, E.explain_eq_nil_iff] at hn
      obtain ⟨r, hr⟩ := hn
      rw [rewrite, hr, E.eq_no_of_rewrite hr]
    · rw [explain] at hd
      exact E.action_of_mem_explain hd

theorem refusesInner_append {last} (hlast : ∀ plan, ¬ last.Refuses D plan id) :
    ∀ {layers}, (∀ e ∈ layers, AccessSpec D e plan id) →
      (RefusesInner D (layers ++ [last]) plan id ↔ layers.flatMap (explain D plan id) ≠ [])
  | [], _ => by simp [RefusesInner, hlast plan]
  | e :: layers, h => by
    obtain ⟨hr, hp, -⟩ := h e mem_cons_self
    have ih := refusesInner_append hlast fun e he => h e (mem_cons_of_mem _ he)
    rw [cons_append, RefusesInner, hr, flatMap_cons, Ne, Ne, append_eq_nil_iff]
    by_cases hn : e.explain D plan id = []
    · simp only [hn, not_true_eq_false, false_or, true_and, hp hn, Except.ok.injEq, exists_eq_left',
        Transformed.data_no, ih, Ne]
    · simp [hn]

end Stack

/-! ## Whether the report is true -/

/-- The rewrite goes through, and does this on the way. -/
def Enforcer.Applies (D : Engine) (e : Enforcer) (plan : LogicalPlan) (id : Identity) (deed : Deed) : Prop :=
  (∃ r, e.rewrite D plan id = .ok r) ∧ e.Does D plan id deed

/-- What is reported of a query is what is done with it. -/
structure Truthful (D : Engine) (e : Enforcer) (plan : LogicalPlan) (id : Identity) : Prop where
  rowFilters : ∀ t, (∃ d ∈ e.explain D plan id, d.action = .rowFilter ∧ d.resource = t.render) ↔
    e.Applies D plan id (.filtered t)
  masks : ∀ rel name, (∃ d ∈ e.explain D plan id, d.action = .mask ∧ d.resource = rel.render ++ "." ++ name) ↔
    e.Applies D plan id (.masked ⟨some rel, name⟩)
  denials : (∃ d ∈ e.explain D plan id, d.action = .deny) ↔ e.Refuses D plan id

section Truth

variable {D : Engine} {plan : LogicalPlan} {id : Identity}

/-- A stack whose every report is a denial, and which reports all of these, is truthful of what it does not change. -/
theorem truthful_iff_of_denials {e} (hdy : ∀ d ∈ e.explain D plan id, d.action = .deny)
    (hre : e.Refuses D plan id ↔ e.explain D plan id ≠ []) :
    Truthful D e plan id ↔ ∀ r, e.rewrite D plan id = .ok r → r.transformed = false := by
  have hn : ∀ action, action ≠ .deny → ∀ resource,
      ¬ ∃ d ∈ e.explain D plan id, d.action = action ∧ d.resource = resource := by
    rintro action hne resource ⟨d, hd, hac, -⟩
    exact hne (hac.symm.trans (hdy d hd))
  have hde : (∃ d ∈ e.explain D plan id, d.action = .deny) ↔ e.Refuses D plan id := by
    rw [hre, Ne, eq_nil_iff_forall_not_mem, not_forall]
    simp only [not_not]
    exact ⟨fun ⟨d, hd, _⟩ => ⟨d, hd⟩, fun ⟨d, hd⟩ => ⟨d, hd, hdy d hd⟩⟩
  constructor
  · intro h r hr
    by_contra hc
    obtain ⟨deed, hdd⟩ := (e.transformed_iff hr).mp (by simpa using hc)
    cases deed with
    | filtered t => exact hn _ (by decide) _ ((h.rowFilters t).mpr ⟨⟨r, hr⟩, hdd⟩)
    | masked c =>
      obtain ⟨rel, hrl⟩ := hdd.relation
      exact hn _ (by decide) _ ((h.masks rel c.name).mpr ⟨⟨r, hr⟩, hrl ▸ hdd⟩)
  · intro h
    have ha : ∀ deed, ¬ e.Applies D plan id deed := by
      rintro deed ⟨⟨r, hr⟩, hdd⟩
      have hc := (e.transformed_iff hr).mpr ⟨deed, hdd⟩
      rw [h r hr] at hc
      cases hc
    refine ⟨fun t => ?_, fun rel name => ?_, hde⟩
    · exact iff_of_false (hn _ (by decide) _) (ha _)
    · exact iff_of_false (hn _ (by decide) _) (ha _)

/-- **What the server explains**: the report on a query is true exactly when its rewrite fails or leaves the plan as it
is. Denials and missing grants are always reported, masks and row filters never. -/
theorem explain_truthful_iff (D : Engine) (layers : Layers) (denials : List AccessDenial)
    (grantEnforcer : Option GrantEnforcer) (plan : LogicalPlan) (id : Identity) :
    Truthful D (composePolicyEnforcer layers.enforcer denials grantEnforcer) plan id ↔
      ∀ r, (composePolicyEnforcer layers.enforcer denials grantEnforcer).rewrite D plan id = .ok r →
        r.transformed = false := by
  have hs : ∀ e ∈ accessLayers denials grantEnforcer, AccessSpec D e plan id := fun e he => accessSpec he
  refine truthful_iff_of_denials ?_ ?_
  · intro d hd
    rw [explain_composePolicyEnforcer] at hd
    obtain ⟨e, he, hd⟩ := List.mem_flatMap.mp hd
    exact (hs e he).denies d hd
  · rw [explain_composePolicyEnforcer, composePolicyEnforcer_eq]
    split_ifs with hem
    · rw [List.isEmpty_iff.mp hem, Refuses]
      simp [layers.not_refuses]
    · rw [Refuses]
      refine refusesInner_append (fun plan => ?_) hs
      rw [Refuses]
      exact layers.not_refuses plan id

/-- A mask is applied to the query, and not reported. -/
theorem mask_not_explained :
    let D : Engine := ⟨fun _ _ => none, fun _ => "", 1, fun _ => ""⟩
    let email : Column := ⟨some (.bare "users"), "email"⟩
    let emails (e : Expr) : LogicalPlan := .projection [e] (.tableScan (.bare "users") none [] none) [email]
    let plan := emails (.column email)
    let mask : ColumnMask := ⟨.bare "users", "email", .literal (.utf8 "***"), none, none⟩
    ∃ layers, { RuleStorage.empty with masks := [mask] }.compose = .ok layers ∧
      let stack := composePolicyEnforcer layers.enforcer [] none
      stack.explain D plan .anonymous = [] ∧
      stack.rewrite D plan .anonymous =
        .ok (.yes (emails (.aliasExpr (.literal (.utf8 "***")) email.relation "email"))) ∧
      stack.Applies D plan .anonymous (.masked email) := by
  intro D email emails plan mask
  refine ⟨_, rfl, rfl, rfl, ⟨_, rfl⟩, plan, plan, .here plan plan, rfl, ⟨.column email, ?_, ?_⟩, rfl⟩
  · exact List.mem_singleton.mpr rfl
  · exact Expr.self_mem_nodes _

end Truth

end Dataglot
