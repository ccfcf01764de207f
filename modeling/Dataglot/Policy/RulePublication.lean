/-
The rule store with all it holds (`store.rs`): besides masks and row filters, the tags of columns,
tag policies and certifications, which governance events change one at a time.

A change that moves the storage is published: the enforcer is composed anew and swapped in. One that
does not compose is taken back. One that does not move it is not published; but a removal may drop an
entry that had no tags left and say that nothing moved. What is published then is not what would be
composed, and yet does the same.
-/
import Dataglot.Library.BindingMap
import Dataglot.Library.Runs
import Dataglot.Policy.Enforcer

namespace Dataglot
open DataFusion RuleStorage BindingMap Option

/-! ## The storage -/

abbrev ColumnKey := TableReference × String

/-- `RuleStorage`. Its maps stand in the order in which they are iterated over. -/
structure LiveStorage where
  masks : List ColumnMask
  filters : List RowFilter
  tags : List TagDefinition
  policies : List Policy
  columns : List (ColumnKey × List TagId)
  certifications : List (ColumnKey × List String)
  sessionDefaults : Option (String × String)

/-- `RuleChange`: those of policy statements, and one for each governance event. -/
inductive LiveChange
  | statement (change : RuleChange)
  | tagAssigned (table : TableReference) (column : String) (tag : TagId)
  | tagRemoved (table : TableReference) (column : String) (tag : TagId)
  | policyUpserted (policy : Policy)
  | policyDeleted (policyId : String)
  | certificationUpserted (table : TableReference) (column : String) (certification : String)
  | certificationDeleted (table : TableReference) (column : String) (certification : String)

/-- `Debug` of expressions and of rules, by which re-sent ones are known. -/
structure DebugText where
  expr : Expr → String
  rule : RuleType → String

/-- How the maps of a composed registry are iterated over. -/
structure Iteration where
  arrange : OrgGovernance → OrgGovernance
  tags : ∀ G, (arrange G).tags = G.tags
  policies : ∀ G, (arrange G).policiesByTag = G.policiesByTag
  columns : ∀ G, (arrange G).columns.entries.Perm G.columns.entries

/-- How the maps are iterated over once something has been inserted, and those of a registry that is built then. -/
structure HashOrder where
  registry : Iteration
  policies : Reorder Policy
  columns : Reorder (ColumnKey × List TagId)
  certifications : Reorder (ColumnKey × List String)

namespace LiveStorage

def rules (s : LiveStorage) : RuleStorage where
  masks := s.masks
  filters := s.filters
  tags := s.tags
  policies := s.policies
  columns := s.columns.map fun e => ⟨e.1.1, e.1.2, e.2⟩
  sessionDefaults := s.sessionDefaults

def compose (registry : Iteration) (s : LiveStorage) : Except RuleStore.ApplyError Layers := do
  let layers ← s.rules.compose
  return { layers with tags := layers.tags.map fun E => ⟨registry.arrange E.governance⟩ }

/-- What is compared of two policies with the same id. -/
def policyText (debug : DebugText) (p : Policy) : String × TagId × OrgGroupId × String :=
  (p.org, p.tag, p.group, debug.rule p.rule)

/-- `apply_change`, and whether the storage moved. -/
def applyChange (debug : DebugText) (order : HashOrder) (s : LiveStorage) : LiveChange → LiveStorage × Bool
  | .statement change =>
    let (rules, changed) := s.rules.applyChange debug.expr change
    ({ s with masks := rules.masks, filters := rules.filters }, changed)
  | .tagAssigned table column tag =>
    let (columns, changed) := BindingMap.bind order.columns (table, column) tag s.columns
    ({ s with columns }, changed)
  | .tagRemoved table column tag =>
    let (columns, changed) := BindingMap.unbind (table, column) tag s.columns
    ({ s with columns }, changed)
  | .policyUpserted policy =>
    let (policies, changed) := KeyedList.upsert Policy.id (policyText debug) policy s.policies
    ({ s with policies := if changed then order.policies.arrange policies else policies }, changed)
  | .policyDeleted policyId =>
    let (policies, changed) := KeyedList.remove Policy.id policyId s.policies
    ({ s with policies }, changed)
  | .certificationUpserted table column certification =>
    let (certifications, changed) :=
      BindingMap.bind order.certifications (table, column) certification s.certifications
    ({ s with certifications }, changed)
  | .certificationDeleted table column certification =>
    let (certifications, changed) := BindingMap.unbind (table, column) certification s.certifications
    ({ s with certifications }, changed)

end LiveStorage

/-! ## The store -/

structure InitialRules where
  masks : List ColumnMask
  filters : List RowFilter
  tags : List TagDefinition
  policies : List Policy
  columns : List SemanticTableColumn
  sessionDefaults : Option (String × String)

/-- `InMemoryRuleStore`: the storage, the enforcer that sessions read, and how often one was swapped in. -/
structure LiveStore where
  storage : LiveStorage
  enforcer : Enforcer
  swaps : Nat

namespace LiveStore

def new (order : HashOrder) (initial : InitialRules) : Except RuleStore.ApplyError LiveStore := do
  let policies := initial.policies.foldl (fun m p => KeyedList.put Policy.id p m) []
  let columns := initial.columns.foldl (fun m c => KeyedList.put Prod.fst ((c.table, c.column), c.tags) m) []
  let storage : LiveStorage :=
    { masks := initial.masks
      filters := initial.filters
      tags := initial.tags
      policies := order.policies.arrange policies
      columns := order.columns.arrange columns
      certifications := []
      sessionDefaults := initial.sessionDefaults }
  let layers ← storage.compose order.registry
  return ⟨storage, layers.enforcer, 0⟩

/-- `apply`. The snapshot that is restored has all that a change may touch. -/
def apply (debug : DebugText) (order : HashOrder) (store : LiveStore) (change : LiveChange) :
    LiveStore × Except RuleStore.ApplyError Unit :=
  let snapshot := store.storage
  let (storage, changed) := store.storage.applyChange debug order change
  if !changed then ({ store with storage }, .ok ())
  else
    match storage.compose order.registry with
    | .ok layers => (⟨storage, layers.enforcer, store.swaps + 1⟩, .ok ())
    | .error e =>
      let restored : LiveStorage :=
        { storage with
          masks := snapshot.masks
          filters := snapshot.filters
          tags := snapshot.tags
          policies := snapshot.policies
          columns := snapshot.columns
          certifications := snapshot.certifications }
      ({ store with storage := restored }, .error e)

end LiveStore

/-! ## What makes no difference -/

/-- Two enforcers that do the same to every plan, for every session, and report the same. -/
def SameBehaviour (e e' : Enforcer) : Prop :=
  ∀ D plan id, e.rewrite D plan id = e'.rewrite D plan id ∧ e.explain D plan id = e'.explain D plan id

namespace SameBehaviour

theorem refl (e) : SameBehaviour e e := fun _ _ _ => ⟨rfl, rfl⟩

theorem trans {e e' e''} (h : SameBehaviour e e') (h' : SameBehaviour e' e'') : SameBehaviour e e'' :=
  fun D plan id => ⟨(h D plan id).1.trans (h' D plan id).1, (h D plan id).2.trans (h' D plan id).2⟩

end SameBehaviour

/-- No tag policies, or a registry without tags. -/
def IdleTags (tags : Option TagBasedEnforcer) : Prop := ∀ E, tags = some E → E.governance.tagCount = 0

theorem rewrite_idle {D E} (h : E.governance.tagCount = 0) (plan id) : (Enforcer.tags E).rewrite D plan id = .ok (.no plan) := by
  rw [Enforcer.rewrite, TagBasedEnforcer.rewrite, if_pos (.inl h)]

namespace Layers

theorem rewrite_of_idle {D} {layers : Layers} (h : IdleTags layers.tags) (plan id) :
    layers.enforcer.rewrite D plan id = (Layers.mk none layers.masks layers.filters).enforcer.rewrite D plan id := by
  rw [rewrite_enforcer, rewrite_enforcer]
  cases ht : layers.tags with
  | none => simp only [list, ht]
  | some E =>
    have hi := rewrite_idle (D := D) (h E ht) plan id
    simp only [list, ht, map_some, toList_some, List.cons_append, map_none,
      toList_none, List.nil_append]
    rw [Enforcer.rewriteInner, hi]
    rfl

theorem explain_enforcer_eq {D} (layers : Layers) (plan id) :
    layers.enforcer.explain D plan id = (Layers.mk none layers.masks layers.filters).enforcer.explain D plan id := by
  rw [explain_enforcer, explain_enforcer]
  cases ht : layers.tags with
  | none => simp only [list, ht]
  | some E => simp [list, ht, Enforcer.explain]

theorem sameBehaviour_of_idle {layers layers' : Layers} (ht : IdleTags layers.tags) (ht' : IdleTags layers'.tags)
    (hm : layers.masks = layers'.masks) (hf : layers.filters = layers'.filters) :
    SameBehaviour layers.enforcer layers'.enforcer := by
  intro D plan id
  rw [rewrite_of_idle ht, rewrite_of_idle ht', layers.explain_enforcer_eq, layers'.explain_enforcer_eq, hm,
    hf]
  exact ⟨rfl, rfl⟩

end Layers

namespace LiveStorage

/-- The same but for columns and certifications that have nothing bound to them. -/
structure Alike (s s' : LiveStorage) : Prop where
  masks : s'.masks = s.masks
  filters : s'.filters = s.filters
  tags : s'.tags = s.tags
  policies : s'.policies = s.policies
  columns : BindingMap.bound s'.columns = BindingMap.bound s.columns
  sessionDefaults : s'.sessionDefaults = s.sessionDefaults

/-- A change that is reported as none drops at most such entries. -/
theorem alike_of_unchanged {debug order} {s : LiveStorage} {change}
    (h : (s.applyChange debug order change).2 = false) : s.Alike (s.applyChange debug order change).1 := by
  cases change with
  | statement change =>
    obtain ⟨hs, hf⟩ := s.rules.applyChange_unchanged_iff debug.expr change
    have hr := hs.mpr (hf.mp h)
    exact ⟨congrArg RuleStorage.masks hr, congrArg RuleStorage.filters hr, rfl, rfl, rfl, rfl⟩
  | tagAssigned table column tag => exact ⟨rfl, rfl, rfl, rfl, congrArg _ (BindingMap.bind_of_unchanged h), rfl⟩
  | tagRemoved table column tag => exact ⟨rfl, rfl, rfl, rfl, BindingMap.bound_unbind_of_unchanged h, rfl⟩
  | policyUpserted policy =>
    have hf : (KeyedList.upsert Policy.id (policyText debug) policy s.policies).2 = false := h
    obtain ⟨hs, hb⟩ := KeyedList.upsert_unchanged_iff Policy.id (policyText debug) policy s.policies
    refine ⟨rfl, rfl, rfl, ?_, rfl, rfl⟩
    simp only [applyChange, hf, Bool.false_eq_true, if_false]
    exact hs.mpr (hb.mp hf)
  | policyDeleted policyId =>
    obtain ⟨hs, hf⟩ := KeyedList.remove_unchanged_iff Policy.id (policyText debug) policyId s.policies
    exact ⟨rfl, rfl, rfl, hs.mpr (hf.mp h), rfl, rfl⟩
  | certificationUpserted table column certification => exact ⟨rfl, rfl, rfl, rfl, rfl, rfl⟩
  | certificationDeleted table column certification => exact ⟨rfl, rfl, rfl, rfl, rfl, rfl⟩

theorem filter_columns_rules (s : LiveStorage) : (s.rules.columns.filter fun c => !c.tags.isEmpty) =
    (bound s.columns).map fun e => ⟨e.1.1, e.1.2, e.2⟩ := by
  rw [rules, List.filter_map, bound]
  rfl

theorem composeTags_of_empty {s : LiveStorage} (ht : s.tags = []) (hp : s.policies = [])
    (hb : bound s.columns = []) :
    ∃ tags, s.rules.composeTags = .ok tags ∧ ∀ E, tags = some E → E.governance.tagCount = 0 := by
  unfold composeTags
  split_ifs
  · exact ⟨none, rfl, nofun⟩
  · refine ⟨some ⟨⟨∅, ∅, ∅⟩⟩, ?_, ?_⟩
    · rw [filter_columns_rules, hb]
      simp only [rules, ht, hp]
      rfl
    · rintro E ⟨⟩
      rfl

/-- Storages that are alike compose to tag policies that are the same, or idle in both. -/
theorem Alike.composeTags {s s' : LiveStorage} (h : s.Alike s') {tags}
    (hs : s.rules.composeTags = .ok tags) : s'.rules.composeTags = .ok tags ∨
      IdleTags tags ∧ ∃ tags', s'.rules.composeTags = .ok tags' ∧ IdleTags tags' := by
  by_cases he : s.tags = [] ∧ s.policies = [] ∧ BindingMap.bound s.columns = []
  · obtain ⟨hta, hp, hb⟩ := he
    obtain ⟨t, ht, hi⟩ := composeTags_of_empty hta hp hb
    obtain rfl : tags = t := Except.ok.inj (hs.symm.trans ht)
    exact .inr ⟨hi, composeTags_of_empty (h.tags.trans hta) (h.policies.trans hp) (h.columns.trans hb)⟩
  · -- both have something to say
    have hso : ∀ t : LiveStorage, ¬(t.tags = [] ∧ t.policies = [] ∧ BindingMap.bound t.columns = []) →
        (t.rules.tags.isEmpty && t.rules.policies.isEmpty && t.rules.columns.isEmpty) = false := by
      intro t ht
      rw [Bool.eq_false_iff]
      intro hn
      simp only [rules, Bool.and_eq_true, List.isEmpty_iff, List.map_eq_nil_iff] at hn
      exact ht ⟨hn.1.1, hn.1.2, by rw [hn.2]; rfl⟩
    have he' := he
    rw [← h.tags, ← h.policies, ← h.columns] at he'
    have hbu : s'.rules.composeTags = s.rules.composeTags := by
      rw [RuleStorage.composeTags, RuleStorage.composeTags, hso s he, hso s' he', filter_columns_rules,
        filter_columns_rules, h.columns]
      simp only [rules, h.tags, h.policies]
    exact .inl (hbu.trans hs)

theorem Alike.compose {s s' : LiveStorage} (h : s.Alike s') {registry layers} (hs : s.compose registry = .ok layers) :
    ∃ layers', s'.compose registry = .ok layers' ∧ SameBehaviour layers.enforcer layers'.enforcer := by
  simp only [LiveStorage.compose, RuleStorage.compose, Except.bind_ok_iff, Except.pure_ok_iff] at hs
  obtain ⟨-, ⟨tags, hta, masks, hm, filters, hf, rfl⟩, rfl⟩ := hs
  have hm' : s'.rules.composeMasks = .ok masks := by
    have hr : s'.rules.masks = s.rules.masks := h.masks
    have hd : s'.rules.sessionDefaults = s.rules.sessionDefaults := h.sessionDefaults
    rw [← hm, RuleStorage.composeMasks, RuleStorage.composeMasks, hr, hd]
  have hf' : s'.rules.composeFilters = .ok filters := by
    have hr : s'.rules.filters = s.rules.filters := h.filters
    rw [← hf, RuleStorage.composeFilters, RuleStorage.composeFilters, hr]
  have hc : ∀ {tags'}, s'.rules.composeTags = .ok tags' → s'.compose registry =
      .ok ⟨tags'.map fun E => ⟨registry.arrange E.governance⟩, masks, filters⟩ := by
    intro tags' hta'
    rw [LiveStorage.compose, RuleStorage.compose, hta', hm', hf']
    rfl
  have hi : ∀ {tags}, IdleTags tags →
      IdleTags (tags.map fun E => ⟨registry.arrange E.governance⟩) := by
    intro tags hta E hE
    obtain ⟨E', hE', rfl⟩ := map_eq_some_iff.mp hE
    have hco := hta E' hE'
    simpa only [OrgGovernance.tagCount, registry.tags] using hco
  rcases h.composeTags hta with hta' | ⟨ht, tags', hta', ht'⟩
  · exact ⟨_, hc hta', .refl _⟩
  · exact ⟨_, hc hta', Layers.sameBehaviour_of_idle (hi ht) (hi ht') rfl rfl⟩

end LiveStorage

/-! ## Calls -/

namespace LiveStorage

/-- The same contents: the maps may be iterated over in another order. -/
structure SameContents (s s' : LiveStorage) : Prop where
  masks : s'.masks = s.masks
  filters : s'.filters = s.filters
  tags : s'.tags = s.tags
  policies : s'.policies.Perm s.policies
  columns : s'.columns.Perm s.columns
  certifications : s'.certifications.Perm s.certifications
  sessionDefaults : s'.sessionDefaults = s.sessionDefaults

theorem not_sameContents_of_changed {debug order} {s : LiveStorage} {change}
    (h : (s.applyChange debug order change).2 = true) : ¬ s.SameContents (s.applyChange debug order change).1 := by
  intro hs
  cases change with
  | statement change =>
    obtain ⟨hr, hfl⟩ := s.rules.applyChange_unchanged_iff debug.expr change
    have hs' : (s.rules.applyChange debug.expr change).1 = s.rules := by
      have hm : (s.rules.applyChange debug.expr change).1.masks = s.rules.masks := hs.masks
      have hf : (s.rules.applyChange debug.expr change).1.filters = s.rules.filters := hs.filters
      cases change <;> first
        | exact with_masks_eq_iff.mpr hm
        | exact with_filters_eq_iff.mpr hf
    have hu : (s.rules.applyChange debug.expr change).2 = false := hfl.mpr (hr.mp hs')
    have hc : (s.rules.applyChange debug.expr change).2 = true := h
    rw [hu] at hc
    cases hc
  | tagAssigned table column tag => exact not_perm_bind h hs.columns
  | tagRemoved table column tag => exact not_perm_unbind h hs.columns
  | policyUpserted policy =>
    have hfl : (KeyedList.upsert Policy.id (policyText debug) policy s.policies).2 = true := h
    have hp := hs.policies
    simp only [applyChange, hfl, if_true] at hp
    exact KeyedList.not_perm_upsert hfl ((order.policies.perm _).symm.trans hp)
  | policyDeleted policyId => exact KeyedList.not_perm_remove h hs.policies
  | certificationUpserted table column certification => exact not_perm_bind h hs.certifications
  | certificationDeleted table column certification => exact not_perm_unbind h hs.certifications

theorem sessionDefaults_applyChange (debug order) (s : LiveStorage) (change) :
    (s.applyChange debug order change).1.sessionDefaults = s.sessionDefaults := by
  cases change <;> rfl

end LiveStorage

namespace LiveStore

variable {debug : DebugText} {order : HashOrder} {store : LiveStore} {change : LiveChange}

/-- All that a call can come to: nothing moved, the storage moved and was published, or it was put back. -/
theorem apply_cases (debug order) (store : LiveStore) (change) :
    ((store.storage.applyChange debug order change).2 = false ∧ store.apply debug order change =
      ({ store with storage := (store.storage.applyChange debug order change).1 }, .ok ())) ∨
    ((store.storage.applyChange debug order change).2 = true ∧ ∃ layers,
      (store.storage.applyChange debug order change).1.compose order.registry = .ok layers ∧
        store.apply debug order change =
          (⟨(store.storage.applyChange debug order change).1, layers.enforcer, store.swaps + 1⟩, .ok ())) ∨
    ∃ e, store.apply debug order change = (store, .error e) := by
  unfold apply
  cases hc : (store.storage.applyChange debug order change).2 with
  | false => simp [hc]
  | true =>
    cases hco : (store.storage.applyChange debug order change).1.compose order.registry with
    | ok layers => simp [hc, hco]
    | error e =>
      refine .inr (.inr ⟨e, ?_⟩)
      simp only [hc, hco, Bool.not_true, Bool.false_eq_true, if_false,
        LiveStorage.sessionDefaults_applyChange]

/-- What sessions read does what the rules that are stored compose to. -/
def Published (store : LiveStore) : Prop :=
  ∃ registry layers, store.storage.compose registry = .ok layers ∧ SameBehaviour store.enforcer layers.enforcer

theorem published_of_new {initial} (h : new order initial = .ok store) : store.Published := by
  simp only [new, Except.bind_ok_iff, Except.pure_ok_iff] at h
  obtain ⟨layers, hc, rfl⟩ := h
  exact ⟨order.registry, layers, hc, .refl _⟩

theorem Published.apply (h : store.Published) (debug order change) :
    (store.apply debug order change).1.Published := by
  rcases apply_cases debug order store change with ⟨hu, heq⟩ | ⟨-, layers, hc, heq⟩ | ⟨e, heq⟩
  · rw [heq]
    obtain ⟨registry, layers, hc, hs⟩ := h
    obtain ⟨layers', hc', hs'⟩ := (LiveStorage.alike_of_unchanged hu).compose hc
    exact ⟨registry, layers', hc', hs.trans hs'⟩
  · rw [heq]
    exact ⟨order.registry, layers, hc, .refl _⟩
  · rw [heq]
    exact h

abbrev Call := HashOrder × LiveChange

def step (debug : DebugText) (store : LiveStore) (call : Call) : Option LiveStore :=
  some (store.apply debug call.1 call.2).1

/-- What is to hold of a call. -/
structure Publishes (debug : DebugText) (store : LiveStore) (call : Call) (store' : LiveStore) : Prop where
  published : store'.Published
  failed : ∀ e, (store.apply debug call.1 call.2).2 = .error e → store' = store
  unmoved : store.storage.SameContents store'.storage → store'.enforcer = store.enforcer ∧ store'.swaps = store.swaps

theorem publishes_step (h : store.Published) {call store'}
    (hstep : step debug store call = some store') : Publishes debug store call store' := by
  obtain rfl := some.inj hstep
  refine ⟨h.apply debug call.1 call.2, ?_, ?_⟩ <;>
    rcases apply_cases debug call.1 store call.2 with ⟨-, heq⟩ | ⟨hc, layers, -, heq⟩ | ⟨e, heq⟩ <;> rw [heq]
  · exact fun _ => nofun
  · exact fun _ => nofun
  · exact fun _ _ => rfl
  · exact fun _ => ⟨rfl, rfl⟩
  · exact fun hs => absurd hs (LiveStorage.not_sameContents_of_changed hc)
  · exact fun _ => ⟨rfl, rfl⟩

/-- **Publication**: after every call of a sequence, whether it failed or not, what is published does what the storage
composes to; a failed call leaves all as it was; and a call that leaves the contents as they are swaps nothing in. -/
theorem publication (debug : DebugText) {order : HashOrder} {initial : InitialRules} {store : LiveStore}
    (h : new order initial = .ok store) (calls : List Call) :
    store.Published ∧ Runs.Along (step debug) (Publishes debug) store calls := by
  have hp := published_of_new h
  refine ⟨hp, Runs.along_of_inv Published (fun s call s' hs hstep => ?_) calls hp⟩
  have hpu := publishes_step hs hstep
  exact ⟨hpu.published, hpu⟩

/-- Three events: the first drops an entry without tags and says that nothing moved, the second fails, the third is
published. -/
theorem publication_of_events :
    let order : HashOrder :=
      ⟨⟨id, fun _ => rfl, fun _ => rfl, fun _ => .rfl⟩, ⟨id, fun _ => .rfl⟩, ⟨id, fun _ => .rfl⟩, ⟨id, fun _ => .rfl⟩⟩
    let debug : DebugText := ⟨fun _ => "", fun _ => ""⟩
    let policy : Policy := ⟨"p1", "acme", ⟨"pii"⟩, ⟨"analyst"⟩, .mask (.literal (.utf8 "***"))⟩
    let initial : InitialRules :=
      ⟨[], [], [⟨⟨"pii"⟩, "acme", "PII"⟩], [policy], [⟨.bare "users", "email", []⟩], none⟩
    let removed : LiveChange := .tagRemoved (.bare "users") "email" ⟨"pii"⟩
    let unknown : LiveChange := .tagAssigned (.bare "users") "email" ⟨"secret"⟩
    let assigned : LiveChange := .tagAssigned (.bare "users") "email" ⟨"pii"⟩
    ∃ store, new order initial = .ok store ∧ store.storage.columns ≠ [] ∧
      (store.apply debug order removed).1.storage.columns = [] ∧ (store.apply debug order removed).1.swaps = 0 ∧
      (∃ e, (store.apply debug order unknown).2 = .error e) ∧ (store.apply debug order assigned).1.swaps = 1 ∧
      Runs.Along (step debug) (Publishes debug) store [(order, removed), (order, unknown), (order, assigned)] := by
  intro order debug policy initial removed unknown assigned
  obtain ⟨store, hs⟩ : ∃ store, new order initial = .ok store := ⟨_, rfl⟩
  refine ⟨store, hs, ?_, ?_, ?_, ?_, ?_, (publication debug hs _).2⟩ <;> cases hs
  · exact List.cons_ne_nil _ _
  · rfl
  · rfl
  · exact ⟨_, rfl⟩
  · rfl

end LiveStore

end Dataglot
