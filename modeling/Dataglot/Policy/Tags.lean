/-
Tag policies (`tags.rs`, `tag_enforcer.rs`). Columns carry tags, and a policy puts
a mask or a row filter on a tag for the sessions of a group. The enforcer works
out the masks and filters of a session from that and leaves the rewriting to the
mask and row-filter enforcers.

Every policy of the registry takes part whichever org owns it; the owner is not
looked at. A map is iterated in some order that the source leaves open: here it is
the order of the map's entries, so what is proved of all maps is proved of all
orders.
-/
import Mathlib
import Dataglot.Policy.Mask
import Dataglot.Policy.RowFilter

namespace Dataglot
open DataFusion Except List

/-! ## The registry -/

structure TagId where
  asStr : String
  deriving DecidableEq, Repr

structure TagDefinition where
  id : TagId
  org : String
  name : String
  deriving DecidableEq, Repr

inductive RuleType
  | mask (expression : Expr)
  | rowFilter (predicate : Expr)

structure Policy where
  id : String
  org : String
  tag : TagId
  group : OrgGroupId
  rule : RuleType

def Policy.appliesToGroups (p : Policy) (groups : List String) : Bool := groups.any fun g => g == p.group.asStr

structure SemanticTableColumn where
  table : TableReference
  column : String
  tags : List TagId

/-- `OrgGovernance`: the tags, the policies of each tag in their order, and the tags of each column. -/
structure OrgGovernance where
  tags : AList fun _ : TagId => TagDefinition
  policiesByTag : AList fun _ : TagId => List Policy
  columns : AList fun _ : TableReference × String => List TagId

inductive OrgGovernanceBuildError
  | duplicateTag (id : TagId)
  | unknownTag (policy : String) (tag : TagId)
  | unknownTagOnColumn (table : TableReference) (column : String) (tag : TagId)
  deriving DecidableEq, Repr

def OrgGovernanceBuildError.message : OrgGovernanceBuildError → String
  | duplicateTag id => "duplicate tag id `" ++ id.asStr ++ "`"
  | unknownTag policy tag => "policy `" ++ policy ++ "` references unknown tag `" ++ tag.asStr ++ "`"
  | unknownTagOnColumn table column tag =>
    "column `" ++ table.render ++ "`.`" ++ column ++ "` references unknown tag `" ++ tag.asStr ++ "`"

namespace OrgGovernance

variable (tags : AList fun _ : TagId => TagDefinition)

def addTag (tag : TagDefinition) : Except OrgGovernanceBuildError (AList fun _ : TagId => TagDefinition) :=
  if tag.id ∈ tags then .error (.duplicateTag tag.id) else .ok (tags.insert tag.id tag)

def addPolicy (byTag : AList fun _ : TagId => List Policy)
    (policy : Policy) : Except OrgGovernanceBuildError (AList fun _ : TagId => List Policy) :=
  if policy.tag ∈ tags then .ok (byTag.insert policy.tag ((byTag.lookup policy.tag).getD [] ++ [policy]))
  else .error (.unknownTag policy.id policy.tag)

def addColumn (columns : AList fun _ : TableReference × String => List TagId) (c : SemanticTableColumn) :
    Except OrgGovernanceBuildError (AList fun _ : TableReference × String => List TagId) :=
  match c.tags.find? fun tag => tag ∉ tags with
  | some tag => .error (.unknownTagOnColumn c.table c.column tag)
  | none => .ok (columns.insert (c.table, c.column) ((columns.lookup (c.table, c.column)).getD [] ++ c.tags))

def build (tags : List TagDefinition) (policies : List Policy) (columns : List SemanticTableColumn) :
    Except OrgGovernanceBuildError OrgGovernance := do
  let tags ← tags.foldlM addTag ∅
  let policiesByTag ← policies.foldlM (addPolicy tags) ∅
  let columns ← columns.foldlM (addColumn tags) ∅
  return ⟨tags, policiesByTag, columns⟩

variable (G : OrgGovernance)

def policiesForTag (tag : TagId) : List Policy := (G.policiesByTag.lookup tag).getD []

def iterAnnotatedColumns : List (TableReference × String × List TagId) :=
  G.columns.entries.map fun e => (e.1.1, e.1.2, e.2)

def tagCount : Nat := G.tags.entries.length

def policyCount : Nat := (G.policiesByTag.entries.map fun e => e.2.length).sum

def annotatedColumnCount : Nat := G.columns.entries.length

end OrgGovernance

/-! ## The enforcer -/

/-- The variables of the loops of `resolve_for_identity`. -/
structure Resolving where
  masks : List ColumnMask
  maskKeysSeen : Finset (TableReference × String)
  filtersByTable : AList fun _ : TableReference => Expr
  rowFilterSeen : Finset (TableReference × String)

structure TagBasedEnforcer where
  governance : OrgGovernance

namespace TagBasedEnforcer

/-- The body of the loops: a policy of one of the session's groups, on a tag of the column. -/
def applyPolicy (id : Identity) (table : TableReference) (column : String) (acc : Resolving) (policy : Policy) :
    Resolving :=
  if !policy.appliesToGroups id.orgGroups then acc
  else
    match policy.rule with
    | .mask expression =>
      -- the first mask of a column wins
      if (table, column) ∈ acc.maskKeysSeen then acc
      else
        { acc with
          maskKeysSeen := insert (table, column) acc.maskKeysSeen
          masks := acc.masks ++ [⟨table, column, expression, none, none⟩] }
    | .rowFilter predicate =>
      -- a policy counts once for a table, however many of its columns have the tag
      if (table, policy.id) ∈ acc.rowFilterSeen then acc
      else
        { acc with
          rowFilterSeen := insert (table, policy.id) acc.rowFilterSeen
          filtersByTable := acc.filtersByTable.insert table
            (((acc.filtersByTable.lookup table).map fun e => .op "AND" [e, predicate]).getD predicate) }

/-- The loops over a column's tags and the policies of each. -/
def applyColumn (E : TagBasedEnforcer) (id : Identity) (acc : Resolving) (c : TableReference × String × List TagId) :
    Resolving :=
  c.2.2.foldl (fun acc tag => (E.governance.policiesForTag tag).foldl (applyPolicy id c.1 c.2.1) acc) acc

/-- `resolve_for_identity`, which does not fail: the masks and row filters of a session. -/
def resolveForIdentity (E : TagBasedEnforcer) (id : Identity) : List ColumnMask × List RowFilter :=
  let acc := E.governance.iterAnnotatedColumns.foldl (E.applyColumn id) ⟨[], ∅, ∅, ∅⟩
  let filters := acc.filtersByTable.entries.mergeSort fun a b => a.1.le b.1
  (acc.masks, filters.map fun e => ⟨e.1, e.2, none, none⟩)

/-- The masks, then the row filters, as the composite of the two enforcers applies them. -/
def applyResolved (T : PredicateTyping) (schemaName : Expr → String) (fuel : Nat)
    (resolved : List ColumnMask × List RowFilter) (plan : LogicalPlan) (id : Identity) :
    Except DataFusionError (Transformed LogicalPlan) := do
  let masks ← (ColumnMaskingEnforcer.new resolved.1).mapError fun e =>
    .plan ("tag-based mask resolution: " ++ e.message)
  let filters ← (RowFilterEnforcer.new resolved.2).mapError fun e =>
    .plan ("tag-based row-filter resolution: " ++ e.message)
  let masked ← masks.rewrite schemaName fuel plan id
  let filtered ← filters.rewrite T masked.data id
  return ⟨filtered.data, masked.transformed || filtered.transformed⟩

def rewrite (T : PredicateTyping) (schemaName : Expr → String) (fuel : Nat) (E : TagBasedEnforcer)
    (plan : LogicalPlan) (id : Identity) : Except DataFusionError (Transformed LogicalPlan) :=
  if E.governance.tagCount = 0 ∨ E.governance.policyCount = 0 ∨ E.governance.annotatedColumnCount = 0 then
    .ok (.no plan)
  else
    let resolved := E.resolveForIdentity id
    if resolved.1.isEmpty ∧ resolved.2.isEmpty then .ok (.no plan)
    else applyResolved T schemaName fuel resolved plan id

/-! ## What the resolution depends on -/

variable {id : Identity} {tags : List TagDefinition} {columns : List SemanticTableColumn}
  {policies policies₁ policies₂ : List Policy} {G G₁ G₂ : OrgGovernance}

/-- The policies a session is subject to, without their owners. -/
def inForce (policies : List Policy) (id : Identity) : List Policy :=
  (policies.filter fun p => p.appliesToGroups id.orgGroups).map fun p => { p with org := "" }

theorem foldl_applyPolicy_inForce (table column acc) :
    policies.foldl (applyPolicy id table column) acc = (inForce policies id).foldl
    (applyPolicy id table column) acc := by
  rw [inForce, foldl_map, foldl_filter]
  congr 1
  funext acc p
  by_cases hp : p.appliesToGroups id.orgGroups
  · rw [if_pos hp]
    rfl
  · simp [applyPolicy, hp]

theorem lookup_foldlM_addPolicy {known} (tag) : ∀ {policies : List Policy} {m₀ m},
      policies.foldlM (OrgGovernance.addPolicy known) m₀ = .ok m →
      (m.lookup tag).getD [] = (m₀.lookup tag).getD [] ++ policies.filter fun p => p.tag = tag
  | [], m₀, m, h => by
    rw [foldlM_nil, pure_ok_iff] at h
    simp [h]
  | p :: policies, m₀, m, h => by
    rw [foldlM_cons, bind_ok_iff] at h
    obtain ⟨m₁, h₁, h⟩ := h
    rw [lookup_foldlM_addPolicy tag h]
    unfold OrgGovernance.addPolicy at h₁
    split at h₁
    next =>
      cases h₁
      by_cases ht : p.tag = tag
      · subst ht
        simp [AList.lookup_insert]
      · simp [ht, AList.lookup_insert_ne (Ne.symm ht)]
    next => cases h₁

theorem policiesForTag_of_build (h : OrgGovernance.build tags policies columns = .ok G) (tag) :
    G.policiesForTag tag = policies.filter fun p => p.tag = tag := by
  simp only [OrgGovernance.build, bind_ok_iff, pure_ok_iff] at h
  obtain ⟨known, -, byTag, hb, cols, -, rfl⟩ := h
  have hl := lookup_foldlM_addPolicy tag hb
  simpa [OrgGovernance.policiesForTag] using hl

theorem columns_of_build (h₁ : OrgGovernance.build tags policies₁ columns = .ok G₁)
    (h₂ : OrgGovernance.build tags policies₂ columns = .ok G₂) : G₁.tags = G₂.tags ∧ G₁.columns = G₂.columns := by
  simp only [OrgGovernance.build, bind_ok_iff, pure_ok_iff] at h₁ h₂
  obtain ⟨known, hk, -, -, cols, hc, rfl⟩ := h₁
  obtain ⟨known', hk', -, -, cols', hc', rfl⟩ := h₂
  obtain rfl : known = known' := ok.inj (hk.symm.trans hk')
  exact ⟨rfl, ok.inj (hc.symm.trans hc')⟩

theorem inForce_filter_tag (policies id tag) :
    inForce (policies.filter fun p => p.tag = tag) id = (inForce policies id).filter fun p => p.tag = tag := by
  rw [inForce, inForce, filter_map, filter_comm]
  rfl

/-- A session's masks and filters come from the policies in force for it, tag by tag. -/
theorem resolveForIdentity_congr (hc : G₁.columns = G₂.columns)
    (h : ∀ tag, inForce (G₁.policiesForTag tag) id = inForce (G₂.policiesForTag tag) id) :
    (TagBasedEnforcer.mk G₁).resolveForIdentity id = (TagBasedEnforcer.mk G₂).resolveForIdentity id := by
  have hstep : (TagBasedEnforcer.mk G₁).applyColumn id = (TagBasedEnforcer.mk G₂).applyColumn id := by
    funext acc c
    unfold applyColumn
    congr 1
    funext acc tag
    rw [foldl_applyPolicy_inForce, h tag, ← foldl_applyPolicy_inForce]
  unfold resolveForIdentity OrgGovernance.iterAnnotatedColumns
  rw [hstep, hc]

theorem resolveForIdentity_of_policyCount (h : G.policyCount = 0) (id) :
    (TagBasedEnforcer.mk G).resolveForIdentity id = ([], []) := by
  have hn : ∀ tag, G.policiesForTag tag = [] := by
    intro tag
    unfold OrgGovernance.policiesForTag
    cases hl : G.policiesByTag.lookup tag with
    | none => rfl
    | some policies =>
      have hm := AList.mem_lookup_iff.mp (show policies ∈ G.policiesByTag.lookup tag from hl)
      have hz : ¬ 0 < policies.length := fun hpos =>
        h.not_gt (List.sum_pos_iff_exists_pos_nat.mpr ⟨_, List.mem_map.mpr ⟨_, hm, rfl⟩, hpos⟩)
      exact List.length_eq_zero_iff.mp (Nat.eq_zero_of_not_pos hz)
  have hstep : ∀ (cs : List (TableReference × String × List TagId)) acc,
      cs.foldl ((TagBasedEnforcer.mk G).applyColumn id) acc = acc := by
    intro cs acc
    refine List.foldl_fixed' (fun c => ?_) cs
    unfold applyColumn
    simp only [hn, List.foldl_nil]
    exact List.foldl_fixed' (fun _ => rfl) _
  simp only [resolveForIdentity, hstep, AList.empty_entries, List.mergeSort_nil, List.map_nil]

theorem rewrite_eq (T schemaName fuel G plan id) : rewrite T schemaName fuel ⟨G⟩ plan id =
      if G.tagCount = 0 ∨ G.annotatedColumnCount = 0 then .ok (.no plan)
      else if ((TagBasedEnforcer.mk G).resolveForIdentity id).1.isEmpty ∧
          ((TagBasedEnforcer.mk G).resolveForIdentity id).2.isEmpty then .ok (.no plan)
      else applyResolved T schemaName fuel ((TagBasedEnforcer.mk G).resolveForIdentity id) plan id := by
  unfold rewrite
  by_cases hc : G.policyCount = 0
  · simp [hc, resolveForIdentity_of_policyCount hc]
  · simp [hc]

/-- **What tag policies do to a session**: two sets of policies over the same tags and annotations do the same to a
session, in the masks and filters that are resolved and in every rewritten plan, if they have the same
policies for the session's groups, in the same order. The orgs that own the policies make no difference. -/
theorem rewrite_congr_inForce (h₁ : OrgGovernance.build tags policies₁ columns = .ok G₁)
    (h₂ : OrgGovernance.build tags policies₂ columns = .ok G₂) (h : inForce policies₁ id = inForce policies₂ id) :
    (TagBasedEnforcer.mk G₁).resolveForIdentity id = (TagBasedEnforcer.mk G₂).resolveForIdentity id ∧
      ∀ T schemaName fuel plan, rewrite T schemaName fuel ⟨G₁⟩ plan id = rewrite T schemaName fuel ⟨G₂⟩ plan id := by
  obtain ⟨ht, hc⟩ := columns_of_build h₁ h₂
  have hr : (TagBasedEnforcer.mk G₁).resolveForIdentity id = (TagBasedEnforcer.mk G₂).resolveForIdentity id := by
    refine resolveForIdentity_congr hc fun tag => ?_
    rw [policiesForTag_of_build h₁, policiesForTag_of_build h₂, inForce_filter_tag, inForce_filter_tag, h]
  refine ⟨hr, fun T schemaName fuel plan => ?_⟩
  rw [rewrite_eq, rewrite_eq, OrgGovernance.tagCount, OrgGovernance.tagCount, OrgGovernance.annotatedColumnCount,
    OrgGovernance.annotatedColumnCount, ht, hc, hr]

/-- A policy for a group the session is not in, and the owner of one for a group it is in, make no difference. -/
theorem rewrite_congr_other_group :
    let columns : List SemanticTableColumn := [⟨.bare "users", "email", [⟨"pii"⟩]⟩]
    let tags : List TagDefinition := [⟨⟨"pii"⟩, "acme", "PII"⟩]
    let policy (org group : String) : Policy := ⟨org ++ group, org, ⟨"pii"⟩, ⟨group⟩, .mask (.literal (.utf8 "***"))⟩
    let ann := ((Identity.ofUser "ann").withOrg "acme").withGroups ["analyst"]
    let mine : Policy := policy "acme" "analyst"
    ∃ G₁ G₂, OrgGovernance.build tags [policy "beta" "ops", mine] columns = .ok G₁ ∧
      OrgGovernance.build tags [{ mine with org := "beta" }] columns = .ok G₂ ∧
      (TagBasedEnforcer.mk G₁).resolveForIdentity ann = (TagBasedEnforcer.mk G₂).resolveForIdentity ann := by
  intro columns tags policy ann mine
  obtain ⟨G₁, h₁⟩ : ∃ G, OrgGovernance.build tags [policy "beta" "ops", mine] columns = .ok G := ⟨_, rfl⟩
  obtain ⟨G₂, h₂⟩ : ∃ G, OrgGovernance.build tags [{ mine with org := "beta" }] columns = .ok G := ⟨_, rfl⟩
  exact ⟨G₁, G₂, h₁, h₂, (rewrite_congr_inForce h₁ h₂ rfl).1⟩

/-- A policy of the org `beta` for a group `analyst` masks a column for a session of `acme` that has a group of
the same name. -/
theorem foreign_policy_fires :
    let columns : List SemanticTableColumn := [⟨.bare "users", "email", [⟨"pii"⟩]⟩]
    let tags : List TagDefinition := [⟨⟨"pii"⟩, "acme", "PII"⟩]
    let foreign : Policy := ⟨"p1", "beta", ⟨"pii"⟩, ⟨"analyst"⟩, .mask (.literal (.utf8 "***"))⟩
    let ann := ((Identity.ofUser "ann").withOrg "acme").withGroups ["analyst"]
    let email : Column := ⟨some (.bare "users"), "email"⟩
    let emails (e : Expr) : LogicalPlan := .projection [e] (.tableScan (.bare "users") none [] none) [email]
    let plan := emails (.column email)
    ∃ G₁ G₂, OrgGovernance.build tags [] columns = .ok G₁ ∧ OrgGovernance.build tags [foreign] columns = .ok G₂ ∧
      (TagBasedEnforcer.mk G₁).resolveForIdentity ann = ([], []) ∧
      (TagBasedEnforcer.mk G₂).resolveForIdentity ann =
        ([⟨.bare "users", "email", .literal (.utf8 "***"), none, none⟩], []) ∧
      ∀ T schemaName fuel, rewrite T schemaName fuel ⟨G₁⟩ plan ann = .ok (.no plan) ∧
        rewrite T schemaName fuel ⟨G₂⟩ plan ann =
          .ok (.yes (emails (.aliasExpr (.literal (.utf8 "***")) email.relation "email"))) := by
  intro columns tags foreign ann email emails plan
  have hf : ∀ {G}, OrgGovernance.build tags [foreign] columns = .ok G →
      (TagBasedEnforcer.mk G).resolveForIdentity ann =
        ([⟨.bare "users", "email", .literal (.utf8 "***"), none, none⟩], []) := by
    rintro G ⟨⟩
    -- only the filters are sorted, and there are none
    unfold resolveForIdentity
    exact Prod.ext rfl (congrArg (List.map _) List.mergeSort_nil)
  refine ⟨_, _, rfl, rfl, resolveForIdentity_of_policyCount rfl ann, hf rfl, fun T schemaName fuel => ⟨?_, ?_⟩⟩
  · rfl
  · rw [rewrite_eq, hf rfl]
    rfl

end TagBasedEnforcer

end Dataglot
