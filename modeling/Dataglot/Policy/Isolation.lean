/-
Tenants do not see each other's rules. What masks, row filters, whitelists and
grants come to for a session depends on the operator-wide rules and on those of
the session's org, each taken in their order: not on the rules of other orgs, and
not on how the rules of the two kinds are mixed.
-/
import Dataglot.Policy.Grant
import Dataglot.Policy.Mask
import Dataglot.Policy.RowFilterResolve
import Dataglot.Policy.Whitelist

namespace Dataglot
open DataFusion ColumnMaskingEnforcer RowFilterEnforcer ColumnWhitelistEnforcer ScopedRule List Option

/-! ## The rules a session sees -/

section AgreeFor

variable {α β : Type} {orgOf : α → Option String} {id : Identity} {l₁ l₂ : List α}

/-- The lists have the same operator-wide rules and the same rules of the session's org, in the same order. -/
def AgreeFor (orgOf : α → Option String) (id : Identity) (l₁ l₂ : List α) : Prop :=
  ∀ org, org = none ∨ org = id.org → (l₁.filter fun a => orgOf a = org) = l₂.filter fun a => orgOf a = org

namespace AgreeFor

theorem filter (h : AgreeFor orgOf id l₁ l₂) (p) : AgreeFor orgOf id (l₁.filter p) (l₂.filter p) := by
  intro org ho
  rw [filter_comm, h org ho, filter_comm]

theorem map (h : AgreeFor orgOf id l₁ l₂) {f} {orgOf' : β → Option String} (hf : ∀ a, orgOf' (f a) = orgOf a) :
    AgreeFor orgOf' id (l₁.map f) (l₂.map f) := by
  intro org ho
  have hc : ((fun b => decide (orgOf' b = org)) ∘ f) = fun a => decide (orgOf a = org) := by
    funext a
    simp [hf]
  rw [List.filter_map, List.filter_map, hc, h org ho]

theorem flatMap {κ : Type} {f₁ f₂} (h : ∀ k, AgreeFor orgOf id (f₁ k) (f₂ k)) (keys : List κ) :
    AgreeFor orgOf id (keys.flatMap f₁) (keys.flatMap f₂) := by
  intro org ho
  simp only [filter_flatMap, h _ org ho]

theorem operatorWide (h : AgreeFor orgOf id l₁ l₂) :
    (l₁.filter fun a => (orgOf a).isNone) = l₂.filter fun a => (orgOf a).isNone := by
  have hn : (fun a => (orgOf a).isNone) = fun a => decide (orgOf a = none) := by
    funext a
    cases orgOf a <;> rfl
  rw [hn]
  exact h none (.inl rfl)

theorem tenant (h : AgreeFor orgOf id l₁ l₂) (h₁ : ∀ a ∈ l₁, orgRuleApplies (orgOf a) id)
    (h₂ : ∀ a ∈ l₂, orgRuleApplies (orgOf a) id) :
    (l₁.filter fun a => (orgOf a).isSome) = l₂.filter fun a => (orgOf a).isSome := by
  have ho : ∀ {l : List α}, (∀ a ∈ l, orgRuleApplies (orgOf a) id) →
      (l.filter fun a => (orgOf a).isSome) = (l.filter fun a => orgOf a = id.org).filter fun a => (orgOf a).isSome := by
    intro l hl
    rw [List.filter_filter]
    refine List.filter_congr fun a ha => ?_
    have hap := hl a ha
    cases hor : orgOf a with
    | none => simp
    | some org =>
      rw [hor, orgRuleApplies_some] at hap
      simp [hap]
  rw [ho h₁, ho h₂, h id.org (.inr rfl)]

theorem perm (h : AgreeFor orgOf id l₁ l₂) (h₁ : ∀ a ∈ l₁, orgRuleApplies (orgOf a) id)
    (h₂ : ∀ a ∈ l₂, orgRuleApplies (orgOf a) id) : l₁.Perm l₂ := by
  have hs : ∀ l : List α, ((l.filter fun a => (orgOf a).isSome) ++ l.filter fun a => (orgOf a).isNone).Perm l := by
    intro l
    simpa using filter_append_perm (fun a => (orgOf a).isSome) l
  calc l₁.Perm ((l₁.filter fun a => (orgOf a).isSome) ++ l₁.filter fun a => (orgOf a).isNone) := (hs l₁).symm
    Perm _ ((l₂.filter fun a => (orgOf a).isSome) ++ l₂.filter fun a => (orgOf a).isNone) := by
      rw [h.tenant h₁ h₂, h.operatorWide]
    Perm _ l₂ := hs l₂

end AgreeFor

end AgreeFor

/-! ## Masks -/

namespace ColumnMaskingEnforcer

variable {id : Identity}

theorem applicableRank_bound {org groups rank}
    (h : applicableRank org groups id = some rank) : (org.isSome → 2 ≤ rank) ∧ (org.isNone → rank ≤ 1) := by
  unfold applicableRank at h
  split at h
  next => cases h
  next =>
    have hr : org.isSome.toNat * 2 + groups.isSome.toNat = rank := some.inj h
    have hgroups := Bool.toNat_le groups.isSome
    cases org with
    | none =>
      simp only [isSome_none, Bool.toNat_false] at hr
      exact ⟨nofun, fun _ => by omega⟩
    | some org =>
      simp only [isSome_some, Bool.toNat_true] at hr
      exact ⟨fun _ => by omega, nofun⟩

variable {r : ScopedRule Expr}

theorem pickRule_eq_some {best p}
    (h : pickRule id best r = some p) : best = some p ∨ applicableRank r.org r.groups id = some p.1 := by
  unfold pickRule at h
  split at h
  next => exact .inl h
  next rank hr =>
    cases best with
    | none =>
      obtain rfl := some.inj h
      exact .inr hr
    | some b =>
      by_cases hgt : rank > b.1
      · simp only [hgt, if_true, some.injEq] at h
        subst h
        exact .inr hr
      · simp only [hgt, if_false] at h
        exact .inl h

theorem pickRule_or_of_isSome {tenant wide} (hr : r.org.isSome)
    (hw : ∀ p, wide = some p → p.1 ≤ 1) : pickRule id (tenant.or wide) r = (pickRule id tenant r).or wide := by
  cases hra : applicableRank r.org r.groups id with
  | none => simp [pickRule, hra]
  | some rank =>
    have hbound := (applicableRank_bound hra).1 hr
    cases tenant with
    | some p => by_cases hgt : rank > p.1 <;> simp [pickRule, hra, hgt]
    | none =>
      cases wide with
      | none => simp [pickRule, hra]
      | some p =>
        have hgt : rank > p.1 := by
          have := hw p rfl
          omega
        simp [pickRule, hra, hgt]

theorem pickRule_or_of_isNone {tenant wide} (hr : r.org.isNone)
    (ht : ∀ p, tenant = some p → 2 ≤ p.1) : pickRule id (tenant.or wide) r = tenant.or (pickRule id wide r) := by
  cases tenant with
  | none => simp
  | some p =>
    cases hra : applicableRank r.org r.groups id with
    | none => simp [pickRule, hra]
    | some rank =>
      have hbound := (applicableRank_bound hra).2 hr
      have hle : ¬ rank > p.1 := by
        have := ht p rfl
        omega
      simp [pickRule, hra, hle]

/-- What is picked from all rules is picked from those of the org, or else from the operator's: every rule of an
org ranks above every rule without one. -/
theorem foldl_pickRule_or : ∀ (rules : List (ScopedRule Expr)) tenant wide,
    (∀ p, tenant = some p → 2 ≤ p.1) → (∀ p, wide = some p → p.1 ≤ 1) → rules.foldl (pickRule id) (tenant.or wide) =
      ((rules.filter fun r => r.org.isSome).foldl (pickRule id) tenant).or
        ((rules.filter fun r => r.org.isNone).foldl (pickRule id) wide)
  | [], _, _, _, _ => rfl
  | r :: rules, tenant, wide, ht, hw => by
    rw [foldl_cons]
    cases ho : r.org with
    | some org =>
      have hr : r.org.isSome := by rw [ho, isSome_some]
      rw [pickRule_or_of_isSome hr hw, foldl_pickRule_or rules _ _ (fun p hp => ?_) hw]
      · simp [ho]
      · rcases pickRule_eq_some hp with hp | hra
        · exact ht p hp
        · exact (applicableRank_bound hra).1 hr
    | none =>
      have hr : r.org.isNone := by rw [ho, isNone_none]
      rw [pickRule_or_of_isNone hr ht, foldl_pickRule_or rules _ _ ht (fun p hp => ?_)]
      · simp [ho]
      · rcases pickRule_eq_some hp with hp | hra
        · exact hw p hp
        · exact (applicableRank_bound hra).2 hr

theorem lookupMask_congr {E₁ E₂ : ColumnMaskingEnforcer} (hd : E₁.sessionDefaults = E₂.sessionDefaults)
    (h : ∀ k, AgreeFor org id (E₁.masks.rulesAt k) (E₂.masks.rulesAt k)) (rel column aliasMap) :
    E₁.lookupMask rel column aliasMap id = E₂.lookupMask rel column aliasMap id := by
  have hk := candidates_congr hd rel aliasMap
  have ha : ∀ {E : ColumnMaskingEnforcer} {keys},
      ∀ r ∈ E.applicableMasks keys column id, orgRuleApplies r.org id :=
    fun r hr => r.orgRuleApplies_of_applies (applies_of_mem_applicableMasks r hr)
  have hag : AgreeFor org id (E₁.applicableMasks (E₁.candidates rel aliasMap) column id)
      (E₂.applicableMasks (E₂.candidates rel aliasMap) column id) := by
    rw [hk]
    exact AgreeFor.flatMap (fun cand => (h (cand, column)).filter _) _
  have hp := fun rules => @foldl_pickRule_or id rules none none nofun nofun
  simp only [or_none] at hp
  rw [lookupMask_eq, lookupMask_eq, hp, hag.tenant ha ha, hag.operatorWide, ← hp]

end ColumnMaskingEnforcer

/-! ## Row filters -/

namespace RowFilterEnforcer

variable {id : Identity}

theorem tierAt_congr {E₁ E₂ : RowFilterEnforcer} {cand}
    (h : AgreeFor org id (E₁.filters.rulesAt cand) (E₂.filters.rulesAt cand)) (ofOrg) :
    E₁.tierAt id ofOrg cand = E₂.tierAt id ofOrg cand := by
  have ha : ∀ {rules : List (ScopedRule Expr)}, ∀ r ∈ rules.filter (·.applies id), orgRuleApplies r.org id :=
    fun r hr => r.orgRuleApplies_of_applies (mem_filter.mp hr).2
  have hag := h.filter (·.applies id)
  rw [tierAt, tierAt, tierPredicates_eq, tierPredicates_eq]
  cases ofOrg with
  | true => simp only [beq_true, hag.tenant ha ha]
  | false => simp only [beq_false, not_isSome, hag.operatorWide]

theorem resolvePredicate_congr {E₁ E₂ : RowFilterEnforcer}
    (h : ∀ k, AgreeFor org id (E₁.filters.rulesAt k) (E₂.filters.rulesAt k)) (table) :
    E₁.resolvePredicate table id = E₂.resolvePredicate table id := by
  have ht : E₁.tierAt id = E₂.tierAt id := by
    funext ofOrg cand
    exact tierAt_congr (h cand) ofOrg
  rw [resolvePredicate_eq, resolvePredicate_eq, ht]

end RowFilterEnforcer

/-! ## Whitelists and grants -/

variable {id : Identity}

theorem ColumnWhitelistEnforcer.visibleColumns_congr {E₁ E₂ : ColumnWhitelistEnforcer}
    (h : ∀ k, AgreeFor org id (E₁.rules.rulesAt k) (E₂.rules.rulesAt k)) (rel aliasMap) : E₁.visibleColumns rel aliasMap id = E₂.visibleColumns rel aliasMap id := by
  have ha : ∀ {E : ColumnWhitelistEnforcer}, ∀ r ∈ ((candidates rel aliasMap).flatMap fun cand =>
      (E.rules.rulesAt cand).filter (·.applies id)), orgRuleApplies r.org id := by
    intro E r hr
    obtain ⟨cand, -, hr⟩ := mem_flatMap.mp hr
    exact r.orgRuleApplies_of_applies (mem_filter.mp hr).2
  have hag := AgreeFor.flatMap (fun cand => (h cand).filter (·.applies id)) (candidates rel aliasMap)
  have hcomm : RightCommutative fun (visible : Option (Finset String)) (rule : ScopedRule (Finset String)) =>
      some (visible.getD ∅ ∪ rule.rule) :=
    ⟨fun visible a b => by simp only [getD_some, Finset.union_right_comm]⟩
  rw [visibleColumns_eq, visibleColumns_eq]
  exact (hag.perm ha ha).foldl_eq none

theorem Grant.orgRuleApplies_of_appliesTo {g : Grant} (h : g.appliesTo id) : orgRuleApplies g.org id := by
  unfold Grant.appliesTo at h
  split at h
  next => cases h
  next ho => simpa using ho

theorem GrantEnforcer.missingPrivilege_congr {grants₁ grants₂}
    (h : AgreeFor Grant.org id grants₁ grants₂) (E : GrantEnforcer) (rel) :
    E.missingPrivilege grants₁ id rel = E.missingPrivilege grants₂ id rel := by
  have han : ∀ p : Grant → Bool, (grants₁.any fun g => p g && g.appliesTo id) = grants₂.any fun g => p g && g.appliesTo id := by
    intro p
    have ha : ∀ {grants : List Grant}, ∀ g ∈ grants.filter (·.appliesTo id), orgRuleApplies g.org id :=
      fun g hg => g.orgRuleApplies_of_appliesTo (List.mem_filter.mp hg).2
    have hp := (h.filter (·.appliesTo id)).perm ha ha
    have hm : ∀ grants : List Grant, (grants.any fun g => p g && g.appliesTo id) ↔
        ∃ g ∈ grants.filter (·.appliesTo id), p g := by
      intro grants
      simp only [List.any_eq_true, Bool.and_eq_true, List.mem_filter]
      exact exists_congr fun g => by tauto
    rw [Bool.eq_iff_iff, hm, hm]
    simp only [hp.mem_iff]
  have hu : holdsUsage grants₁ id = holdsUsage grants₂ id := funext fun catalog => han _
  have hs : holdsSelect grants₁ id = holdsSelect grants₂ id :=
    funext fun catalog => funext fun schema => funext fun table => han _
  rw [missingPrivilege, missingPrivilege, hu, hs]

/-! ## Rule sets -/

structure RuleSet where
  masks : List ColumnMask
  filters : List RowFilter
  whitelists : List ColumnWhitelist
  grants : List Grant

structure Enforcers where
  masks : ColumnMaskingEnforcer
  filters : RowFilterEnforcer
  whitelists : ColumnWhitelistEnforcer
  grants : GrantEnforcer

/-- `ApplyError`, of the rules that can clash. -/
inductive ApplyError
  | buildMask (error : MaskBuildError)
  | buildFilter (error : RowFilterBuildError)
  deriving DecidableEq, Repr

/-- What the rules come to for a session: the mask of each column of a plan, the predicate of each table, the
visible columns of each relation of a plan and the refusal of each scan. -/
structure Resolution where
  mask : LogicalPlan → Column → Option Expr
  predicate : TableReference → Option Expr
  visible : LogicalPlan → TableReference → Option (Finset String)
  refusal : TableReference → Option DataFusionError

namespace RuleSet

/-- Each enforcer from its rules, the masks with the session's defaults if there are any. -/
def build (R : RuleSet) (mode : AuthzMode) (defaults : Option (String × String)) : Except ApplyError Enforcers := do
  let masks ← (ColumnMaskingEnforcer.new R.masks).mapError .buildMask
  let filters ← (RowFilterEnforcer.new R.filters).mapError .buildFilter
  return {
    masks := match defaults with
      | some (catalog, schema) => masks.withSessionDefaults catalog schema
      | none => masks
    filters
    whitelists := .new R.whitelists
    grants := ⟨mode, R.grants, defaults⟩ }

def ofOrg (R : RuleSet) (org : Option String) : RuleSet where
  masks := R.masks.filter fun m => m.org = org
  filters := R.filters.filter fun f => f.org = org
  whitelists := R.whitelists.filter fun w => w.org = org
  grants := R.grants.filter fun g => g.org = org

end RuleSet

def Enforcers.resolve (B : Enforcers) (id : Identity) : Resolution where
  mask plan := B.masks.maskOf (aliasTargets plan) id
  predicate table := B.filters.resolvePredicate table id
  visible plan rel := B.whitelists.visibleColumns rel (aliasTargets plan) id
  refusal := B.grants.missingPrivilege B.grants.grants id

namespace RuleSet

variable {R R₁ R₂ : RuleSet} {mode : AuthzMode} {defaults : Option (String × String)} {B B₁ B₂ : Enforcers}
  {id : Identity}

/-- Both sets have the operator-wide rules and the rules of the session's org in common. -/
def AgreesFor (R₁ R₂ : RuleSet) (id : Identity) : Prop :=
  ∀ org, org = none ∨ org = id.org → R₁.ofOrg org = R₂.ofOrg org

theorem build_ok (h : R.build mode defaults = .ok B) :
    (∃ M, new R.masks = .ok M ∧ B.masks = { M with sessionDefaults := defaults }) ∧
      new R.filters = .ok B.filters ∧ B.whitelists = .new R.whitelists ∧
      B.grants = ⟨mode, R.grants, defaults⟩ := by
  simp only [build, Except.bind_ok_iff, Except.mapError_ok_iff, Except.pure_ok_iff] at h
  obtain ⟨M, hM, F, hF, rfl⟩ := h
  refine ⟨⟨M, hM, ?_⟩, hF, rfl, rfl⟩
  cases defaults with
  | none =>
    obtain ⟨masks, sessionDefaults⟩ := M
    obtain rfl : sessionDefaults = none := sessionDefaults_of_new hM
    rfl
  | some d => rfl

/-- **What a session's rules come to depends on the rules it sees.** -/
theorem resolve_eq_of_agreesFor (h₁ : R₁.build mode defaults = .ok B₁) (h₂ : R₂.build mode defaults = .ok B₂)
    (h : R₁.AgreesFor R₂ id) : B₁.resolve id = B₂.resolve id := by
  obtain ⟨⟨M₁, hM₁, hm₁⟩, hF₁, hW₁, hG₁⟩ := build_ok h₁
  obtain ⟨⟨M₂, hM₂, hm₂⟩, hF₂, hW₂, hG₂⟩ := build_ok h₂
  have hm : AgreeFor ColumnMask.org id R₁.masks R₂.masks := fun org ho => congrArg masks (h org ho)
  have hf : AgreeFor RowFilter.org id R₁.filters R₂.filters := fun org ho => congrArg filters (h org ho)
  have hw : AgreeFor ColumnWhitelist.org id R₁.whitelists R₂.whitelists :=
    fun org ho => congrArg whitelists (h org ho)
  have hg : AgreeFor Grant.org id R₁.grants R₂.grants := fun org ho => congrArg grants (h org ho)
  unfold Enforcers.resolve
  congr 1
  · funext plan c
    have hr : ∀ k, AgreeFor org id (B₁.masks.masks.rulesAt k) (B₂.masks.masks.rulesAt k) := by
      intro k
      rw [hm₁, hm₂, masks_of_new hM₁, masks_of_new hM₂]
      exact (hm.filter _).map fun _ => rfl
    unfold maskOf
    cases c.relation with
    | none => rfl
    | some rel => exact lookupMask_congr (by rw [hm₁, hm₂]) hr rel c.name _
  · funext table
    refine resolvePredicate_congr (fun k => ?_) table
    rw [filters_of_new hF₁, filters_of_new hF₂]
    exact (hf.filter _).map fun _ => rfl
  · funext plan rel
    refine visibleColumns_congr (fun k => ?_) rel _
    rw [hW₁, hW₂, rules_of_new, rules_of_new]
    exact (hw.filter _).map fun _ => rfl
  · funext rel
    rw [hG₁, hG₂]
    exact GrantEnforcer.missingPrivilege_congr hg _ rel

theorem exists_build_ofOrg (h : R.build mode defaults = .ok B) (org) :
    ∃ B', (R.ofOrg org).build mode defaults = .ok B' := by
  obtain ⟨⟨M, hM, -⟩, hF, -⟩ := build_ok h
  obtain ⟨M', hM'⟩ := exists_new_of_subperm
    (show (R.ofOrg org).masks.Subperm R.masks from filter_sublist.subperm) hM
  obtain ⟨F', hF'⟩ := exists_new_of_subperm
    (show (R.ofOrg org).filters.Subperm R.filters from filter_sublist.subperm) hF
  exact ⟨_, by rw [build, hM', hF']; rfl⟩

/-- **Rules are isolated by tenant.** Two rule sets that have the operator-wide rules and the rules of org `A` in
common come to the same for every session of `A`; for a session without an org a rule set comes to what its
operator-wide rules alone do. -/
theorem resolve_isolated (h₁ : R₁.build mode defaults = .ok B₁) (id : Identity) :
    (∀ A, id.org = some A → ∀ (R₂ : RuleSet) (B₂ : Enforcers), R₂.build mode defaults = .ok B₂ → R₁.ofOrg none = R₂.ofOrg none →
      R₁.ofOrg (some A) = R₂.ofOrg (some A) → B₁.resolve id = B₂.resolve id) ∧
    (id.org = none → ∃ B, (R₁.ofOrg none).build mode defaults = .ok B ∧ B₁.resolve id = B.resolve id) := by
  refine ⟨fun A hA R₂ B₂ h₂ hw ht => ?_, fun hn => ?_⟩
  · refine resolve_eq_of_agreesFor h₁ h₂ fun org ho => ?_
    rcases ho with rfl | rfl
    · exact hw
    · rw [hA]
      exact ht
  · obtain ⟨B, hB⟩ := exists_build_ofOrg h₁ none
    refine ⟨B, hB, resolve_eq_of_agreesFor h₁ hB fun org ho => ?_⟩
    obtain rfl : org = none := by
      rcases ho with rfl | rfl
      · rfl
      · exact hn
    simp [ofOrg, List.filter_filter]

/-- Another org's rules under a longer key of the same table change nothing. -/
theorem resolve_isolated_from_beta :
    let users : TableReference := .full "pg" "public" "users"
    let acme : Identity := (Identity.ofUser "ann").withOrg "acme"
    let own : ColumnMask := ⟨.bare "users", "email", .literal (.utf8 "***"), some "acme", none⟩
    let R₁ : RuleSet := ⟨[own], [], [], [.select "ann" (some "acme") "pg" "public" "users"]⟩
    let R₂ : RuleSet := ⟨[⟨users, "email", .literal .null, some "beta", none⟩, own],
      [⟨users, .literal (.boolean false), some "beta", none⟩], [⟨users, [], some "beta", none⟩],
      [.usage "ann" (some "beta") "pg", .select "ann" (some "acme") "pg" "public" "users"]⟩
    ∃ B₁ B₂, R₁.build .grant none = .ok B₁ ∧ R₂.build .grant none = .ok B₂ ∧ B₁.resolve acme = B₂.resolve acme := by
  intro users acme own R₁ R₂
  obtain ⟨B₁, h₁⟩ : ∃ B, R₁.build .grant none = .ok B := ⟨_, rfl⟩
  obtain ⟨B₂, h₂⟩ : ∃ B, R₂.build .grant none = .ok B := ⟨_, rfl⟩
  exact ⟨B₁, B₂, h₁, h₂, (resolve_isolated h₁ acme).1 "acme" rfl R₂ B₂ h₂ rfl rfl⟩

end RuleSet

end Dataglot
