/-
The live rules (`store.rs`): masks and row filters that statements change one at a time.
A change that does not compose into an enforcer is taken back.

Rules are told apart by key: a mask by its table, column and org, a row filter by its
table and org. Whether a rule is there already is decided by how its expression is
printed; its groups are not compared.
-/
import Dataglot.Library.KeyedList
import Dataglot.Policy.Tags

namespace Dataglot
open DataFusion KeyedList ColumnMask ColumnMaskingEnforcer RowFilterEnforcer List

/-! ## Rules by key -/

/-- What makes a rule the same rule. -/
inductive RuleKey
  | mask (table : TableReference) (column : String) (org : Option String)
  | rowFilter (table : TableReference) (org : Option String)
  deriving DecidableEq, Repr

def RuleKey.org : RuleKey → Option String
  | .mask _ _ org => org
  | .rowFilter _ org => org

abbrev ColumnMask.key (m : ColumnMask) : RuleKey := .mask m.table m.column m.org

abbrev RowFilter.key (f : RowFilter) : RuleKey := .rowFilter f.table f.org

/-- The `RuleChange`s that policy statements make. -/
inductive RuleChange
  | maskUpserted (mask : ColumnMask)
  | maskRemoved (table : TableReference) (column : String) (org : Option String)
  | rowFilterUpserted (filter : RowFilter)
  | rowFilterRemoved (table : TableReference) (org : Option String)

inductive RuleStore.ApplyError
  | buildGovernance (e : OrgGovernanceBuildError)
  | buildMask (e : MaskBuildError)
  | buildFilter (e : RowFilterBuildError)

def RuleStore.ApplyError.message : RuleStore.ApplyError → String
  | .buildGovernance e => e.message
  | .buildMask e => e.message
  | .buildFilter e => e.message

/-- `RuleStorage`. Policies and tagged columns stand in the order in which their maps are iterated over. -/
structure RuleStorage where
  masks : List ColumnMask
  filters : List RowFilter
  tags : List TagDefinition
  policies : List Policy
  columns : List SemanticTableColumn
  sessionDefaults : Option (String × String)

structure Layers where
  tags : Option TagBasedEnforcer
  masks : Option ColumnMaskingEnforcer
  filters : Option RowFilterEnforcer

def Layers.noop : Layers := ⟨none, none, none⟩

namespace RuleStorage

def empty : RuleStorage := ⟨[], [], [], [], [], none⟩

def composeTags (s : RuleStorage) : Except RuleStore.ApplyError (Option TagBasedEnforcer) :=
  if s.tags.isEmpty && s.policies.isEmpty && s.columns.isEmpty then .ok none
  else do
    let governance ← (OrgGovernance.build s.tags s.policies (s.columns.filter fun c => !c.tags.isEmpty)).mapError .buildGovernance
    return some ⟨governance⟩

def composeMasks (s : RuleStorage) : Except RuleStore.ApplyError (Option ColumnMaskingEnforcer) :=
  if s.masks.isEmpty then .ok none
  else do
    let enforcer ← (ColumnMaskingEnforcer.new s.masks).mapError .buildMask
    return some (match s.sessionDefaults with
      | some (catalog, schema) => enforcer.withSessionDefaults catalog schema
      | none => enforcer)

def composeFilters (s : RuleStorage) : Except RuleStore.ApplyError (Option RowFilterEnforcer) :=
  if s.filters.isEmpty then .ok none
  else do
    let enforcer ← (RowFilterEnforcer.new s.filters).mapError .buildFilter
    return some enforcer

def compose (s : RuleStorage) : Except RuleStore.ApplyError Layers := do
  let tags ← s.composeTags
  let masks ← s.composeMasks
  let filters ← s.composeFilters
  return ⟨tags, masks, filters⟩

/-- `apply_change`, and whether the storage moved. An expression is compared as `Debug` prints it. -/
def applyChange (debug : Expr → String) (s : RuleStorage) : RuleChange → RuleStorage × Bool
  | .maskUpserted mask =>
    let (masks, changed) := KeyedList.upsert ColumnMask.key (fun m => debug m.mask) mask s.masks
    ({ s with masks }, changed)
  | .maskRemoved table column org =>
    let (masks, changed) := KeyedList.remove ColumnMask.key (.mask table column org) s.masks
    ({ s with masks }, changed)
  | .rowFilterUpserted filter =>
    let (filters, changed) := KeyedList.upsert RowFilter.key (fun f => debug f.predicate) filter s.filters
    ({ s with filters }, changed)
  | .rowFilterRemoved table org =>
    let (filters, changed) := KeyedList.remove RowFilter.key (.rowFilter table org) s.filters
    ({ s with filters }, changed)

end RuleStorage

/-- `InMemoryRuleStore`: the rules, and the enforcer that sessions read. -/
structure InMemoryRuleStore where
  storage : RuleStorage
  enforcer : Layers

namespace InMemoryRuleStore

/-- The store of `InitialRules::default()`. -/
def empty : InMemoryRuleStore := ⟨.empty, .noop⟩

/-- `apply`: what does not compose is rolled back. -/
def apply (debug : Expr → String) (store : InMemoryRuleStore) (change : RuleChange) :
    InMemoryRuleStore × Except RuleStore.ApplyError Unit :=
  let (storage, changed) := store.storage.applyChange debug change
  if !changed then ({ store with storage }, .ok ())
  else
    match storage.compose with
    | .ok enforcer => (⟨storage, enforcer⟩, .ok ())
    | .error e => (store, .error e)

end InMemoryRuleStore

/-! ## What a change does -/

namespace RuleChange

def key : RuleChange → RuleKey
  | .maskUpserted mask => mask.key
  | .maskRemoved table column org => .mask table column org
  | .rowFilterUpserted filter => filter.key
  | .rowFilterRemoved table org => .rowFilter table org

def body (debug : Expr → String) : RuleChange → Option String
  | .maskUpserted mask => some (debug mask.mask)
  | .rowFilterUpserted filter => some (debug filter.predicate)
  | .maskRemoved .. | .rowFilterRemoved .. => none

def groups : RuleChange → Option (List OrgGroupId)
  | .maskUpserted mask => mask.groups
  | .rowFilterUpserted filter => filter.groups
  | .maskRemoved .. | .rowFilterRemoved .. => none

end RuleChange

namespace RuleStorage

variable {debug : Expr → String} {s : RuleStorage}

def bodyAt (debug : Expr → String) (s : RuleStorage) : RuleKey → Option String
  | .mask table column org => KeyedList.bodyAt ColumnMask.key (fun m => debug m.mask) s.masks (.mask table column org)
  | .rowFilter table org => KeyedList.bodyAt RowFilter.key (fun f => debug f.predicate) s.filters (.rowFilter table org)

theorem bodyAt_applyChange (change k) : (s.applyChange debug change).1.bodyAt debug k =
      if k = change.key then change.body debug else s.bodyAt debug k := by
  cases change with
  | maskUpserted mask =>
    cases k with
    | mask table column org => exact bodyAt_upsert mask _ s.masks
    | rowFilter table org => rfl
  | maskRemoved table column org =>
    cases k with
    | mask table' column' org' => exact bodyAt_remove _ _ s.masks
    | rowFilter table' org' => rfl
  | rowFilterUpserted filter =>
    cases k with
    | mask table column org => rfl
    | rowFilter table org => exact bodyAt_upsert filter _ s.filters
  | rowFilterRemoved table org =>
    cases k with
    | mask table' column' org' => rfl
    | rowFilter table' org' => exact bodyAt_remove _ _ s.filters

theorem with_masks_eq_iff {masks} : ({ s with masks } : RuleStorage) = s ↔ masks = s.masks := by
  cases s
  simp

theorem with_filters_eq_iff {filters} : ({ s with filters } : RuleStorage) = s ↔ filters = s.filters := by
  cases s
  simp

theorem applyChange_unchanged_iff (debug) (s : RuleStorage) (change) :
    ((s.applyChange debug change).1 = s ↔ s.bodyAt debug change.key = change.body debug) ∧
      ((s.applyChange debug change).2 = false ↔ s.bodyAt debug change.key = change.body debug) := by
  cases change with
  | maskUpserted mask =>
    obtain ⟨hs, hf⟩ := upsert_unchanged_iff key (fun m => debug m.mask) mask s.masks
    exact ⟨with_masks_eq_iff.trans hs, hf⟩
  | maskRemoved table column org =>
    obtain ⟨hs, hf⟩ :=
      remove_unchanged_iff key (fun m => debug m.mask) (.mask table column org) s.masks
    exact ⟨with_masks_eq_iff.trans hs, hf⟩
  | rowFilterUpserted filter =>
    obtain ⟨hs, hf⟩ := upsert_unchanged_iff RowFilter.key (fun f => debug f.predicate) filter s.filters
    exact ⟨with_filters_eq_iff.trans hs, hf⟩
  | rowFilterRemoved table org =>
    obtain ⟨hs, hf⟩ :=
      remove_unchanged_iff RowFilter.key (fun f => debug f.predicate) (.rowFilter table org) s.filters
    exact ⟨with_filters_eq_iff.trans hs, hf⟩

end RuleStorage

namespace InMemoryRuleStore

variable {debug : Expr → String} {store : InMemoryRuleStore} {change : RuleChange}

/-- All that a change can come to: the rule is as it is to be, or the storage moves and composes, or nothing happens. -/
theorem apply_cases (debug) (store : InMemoryRuleStore) (change) :
    (store.storage.bodyAt debug change.key = change.body debug ∧ store.apply debug change = (store, .ok ())) ∨
    (store.storage.bodyAt debug change.key ≠ change.body debug ∧
      ∃ enforcer, (store.storage.applyChange debug change).1.compose = .ok enforcer ∧
        store.apply debug change = (⟨(store.storage.applyChange debug change).1, enforcer⟩, .ok ())) ∨
    ∃ e, (store.storage.applyChange debug change).1.compose = .error e ∧ store.apply debug change =
    (store, .error e) := by
  obtain ⟨hsa, hf⟩ := store.storage.applyChange_unchanged_iff debug change
  unfold apply
  by_cases hb : store.storage.bodyAt debug change.key = change.body debug
  · left
    have hs := hsa.mpr hb
    simp [hf.mpr hb, hs, hb]
  · have hc : (store.storage.applyChange debug change).2 = true := by simpa using fun h => hb (hf.mp h)
    right
    cases hco : (store.storage.applyChange debug change).1.compose with
    | ok enforcer => simp [hc, hco, hb]
    | error e => simp [hc, hco]

end InMemoryRuleStore

/-! ## Rules of statements

Statements write rules without groups, and nothing else. Such rules always compose. -/

theorem ColumnMaskingEnforcer.exists_new_of_nodup {masks} (h : (masks.map key).Nodup) : ∃ E, new masks = .ok E := by
  have hc : (masks.map fun m => ((m.table, m.column), ScopedRule.mk m.org m.groups m.mask)).Pairwise
      fun a b => ¬ RuleMap.Clash a b := by
    refine pairwise_map.mpr ((pairwise_map.mp h).imp fun hne hc => hne ?_)
    obtain ⟨hk, hs⟩ := hc
    simp only [Prod.mk.injEq] at hk
    simp only [ScopedRule.sameScope, Bool.and_eq_true, beq_iff_eq] at hs
    rw [key, key, hk.1, hk.2, hs.1]
  obtain ⟨map, hm⟩ := RuleMap.build_ok_iff.mpr hc
  exact ⟨⟨map, none⟩, by rw [new, hm]; rfl⟩

theorem RowFilterEnforcer.exists_new_of_nodup {filters} (h : (filters.map RowFilter.key).Nodup) :
    ∃ E, new filters = .ok E := by
  have hc : (filters.map fun f => (f.table, ScopedRule.mk f.org f.groups f.predicate)).Pairwise
      fun a b => ¬ RuleMap.Clash a b := by
    refine pairwise_map.mpr ((pairwise_map.mp h).imp fun hne hc => hne ?_)
    obtain ⟨hk, hs⟩ := hc
    simp only [ScopedRule.sameScope, Bool.and_eq_true, beq_iff_eq] at hk hs
    rw [RowFilter.key, RowFilter.key, hk, hs.1]
  obtain ⟨map, hm⟩ := RuleMap.build_ok_iff.mpr hc
  exact ⟨⟨map⟩, by rw [new, hm]; rfl⟩

namespace RuleStorage

variable {debug : Expr → String} {s : RuleStorage}

/-- One rule per key, for all groups, and no tags. -/
structure Plain (s : RuleStorage) : Prop where
  untagged : s.tags = [] ∧ s.policies = [] ∧ s.columns = []
  masks_nodup : (s.masks.map ColumnMask.key).Nodup
  filters_nodup : (s.filters.map RowFilter.key).Nodup
  masks_groups : ∀ m ∈ s.masks, m.groups = none
  filters_groups : ∀ f ∈ s.filters, f.groups = none

theorem plain_empty : empty.Plain where
  untagged := ⟨rfl, rfl, rfl⟩
  masks_nodup := .nil
  filters_nodup := .nil
  masks_groups := fun _ h => (not_mem_nil h).elim
  filters_groups := fun _ h => (not_mem_nil h).elim

theorem Plain.compose (h : s.Plain) : ∃ enforcer, s.compose = .ok enforcer := by
  obtain ⟨ht, hp, hc⟩ := h.untagged
  obtain ⟨masks, hm⟩ : ∃ masks, s.composeMasks = .ok masks := by
    obtain ⟨E, hE⟩ := exists_new_of_nodup h.masks_nodup
    unfold composeMasks
    split_ifs
    · exact ⟨_, rfl⟩
    · exact ⟨_, by rw [hE]; rfl⟩
  obtain ⟨filters, hf⟩ : ∃ filters, s.composeFilters = .ok filters := by
    obtain ⟨E, hE⟩ := exists_new_of_nodup h.filters_nodup
    unfold composeFilters
    split_ifs
    · exact ⟨_, rfl⟩
    · exact ⟨_, by rw [hE]; rfl⟩
  refine ⟨⟨none, masks, filters⟩, ?_⟩
  have hta : s.composeTags = .ok none := by simp [composeTags, ht, hp, hc]
  rw [RuleStorage.compose, hta, hm, hf]
  rfl

theorem Plain.applyChange (debug) (h : s.Plain) {change} (hg : change.groups = none) :
    (s.applyChange debug change).1.Plain := by
  cases change with
  | maskUpserted mask =>
    refine { h with masks_nodup := nodup_upsert h.masks_nodup, masks_groups := fun m hm => ?_ }
    rcases mem_upsert hm with rfl | hm
    · exact hg
    · exact h.masks_groups m hm
  | maskRemoved table column org =>
    refine { h with masks_nodup := nodup_remove h.masks_nodup, masks_groups := fun m hm => ?_ }
    exact h.masks_groups m (mem_of_mem_filter hm)
  | rowFilterUpserted filter =>
    refine { h with filters_nodup := nodup_upsert h.filters_nodup, filters_groups := fun f hf => ?_ }
    rcases mem_upsert hf with rfl | hf
    · exact hg
    · exact h.filters_groups f hf
  | rowFilterRemoved table org =>
    refine { h with filters_nodup := nodup_remove h.filters_nodup, filters_groups := fun f hf => ?_ }
    exact h.filters_groups f (mem_of_mem_filter hf)

/-! ### Rules as they are compared -/

/-- A rule with its expression printed. -/
structure PrintedRule where
  key : RuleKey
  groups : Option (List OrgGroupId)
  text : String
  deriving DecidableEq, Repr

def printed (debug : Expr → String) (s : RuleStorage) : List PrintedRule :=
  (s.masks.map fun m => ⟨m.key, m.groups, debug m.mask⟩) ++ s.filters.map fun f => ⟨f.key, f.groups, debug f.predicate⟩

theorem Plain.mem_printed (h : s.Plain) {r} :
    r ∈ s.printed debug ↔ r.groups = none ∧ s.bodyAt debug r.key = some r.text := by
  obtain ⟨key, groups, text⟩ := r
  rw [printed, mem_append, mem_map, mem_map]
  simp only [PrintedRule.mk.injEq]
  cases key with
  | mask table column org =>
    rw [bodyAt, bodyAt_eq_some_iff h.masks_nodup]
    constructor
    · rintro (⟨m, hm, hk, hg, ht⟩ | ⟨f, -, hk, -⟩)
      · exact ⟨hg ▸ h.masks_groups m hm, m, hm, hk, ht⟩
      · cases hk
    · rintro ⟨hg, m, hm, hk, ht⟩
      exact .inl ⟨m, hm, hk, hg ▸ h.masks_groups m hm, ht⟩
  | rowFilter table org =>
    rw [bodyAt, bodyAt_eq_some_iff h.filters_nodup]
    constructor
    · rintro (⟨m, -, hk, -⟩ | ⟨f, hf, hk, hg, ht⟩)
      · cases hk
      · exact ⟨hg ▸ h.filters_groups f hf, f, hf, hk, ht⟩
    · rintro ⟨hg, f, hf, hk, ht⟩
      exact .inr ⟨f, hf, hk, hg ▸ h.filters_groups f hf, ht⟩

theorem Plain.printed_congr_iff {s' : RuleStorage} (h : s.Plain) (h' : s'.Plain) :
    (∀ r, r ∈ s.printed debug ↔ r ∈ s'.printed debug) ↔ ∀ k, s.bodyAt debug k = s'.bodyAt debug k := by
  simp only [h.mem_printed, h'.mem_printed]
  constructor
  · intro hr k
    refine Option.ext fun text => ?_
    simpa using hr ⟨k, none, text⟩
  · intro hb r
    rw [hb]

end RuleStorage

theorem InMemoryRuleStore.apply_of_plain (debug) {store : InMemoryRuleStore} {change}
    (h : store.storage.Plain) (hg : change.groups = none) : (store.apply debug change).2 = .ok () ∧
      (store.apply debug change).1.storage = (store.storage.applyChange debug change).1 := by
  rcases apply_cases debug store change with ⟨hb, heq⟩ | ⟨-, enforcer, -, heq⟩ | ⟨e, hc, -⟩
  · rw [heq]
    exact ⟨rfl, ((store.storage.applyChange_unchanged_iff debug change).1.mpr hb).symm⟩
  · rw [heq]
    exact ⟨rfl, rfl⟩
  · obtain ⟨enforcer, hok⟩ := (h.applyChange debug hg).compose
    rw [hok] at hc
    cases hc

end Dataglot
