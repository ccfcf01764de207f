/-
The orders in which tag policies are looked at (`RuleStorage::compose`,
`OrgGovernance::iter_annotated_columns`).

Policies and annotated columns are kept in hash maps, and a column gets the first mask of
a policy that applies. The tags of a column are in order, so the tag decides first; the
policies of one tag come in the order of the map. Row filters are joined by AND, over
different policies, so their order is no matter.
-/
import Dataglot.Policy.RuleOrder
import Dataglot.Policy.RuleStore

namespace Dataglot
open DataFusion KeyedList TagBasedEnforcer Except OrgGovernance SemanticTableColumn List Option AList

namespace TagBasedEnforcer

/-! ## The loops as one -/

/-- A round of the innermost loop: a column, and a policy of one of its tags. -/
abbrev Visit := (TableReference × String) × Policy

variable (G : OrgGovernance)

def columnVisits (c : TableReference × String × List TagId) : List Visit :=
  (c.2.2.flatMap G.policiesForTag).map fun p => ((c.1, c.2.1), p)

def visits : List Visit := G.iterAnnotatedColumns.flatMap (columnVisits G)

def applyVisit (id : Identity) (acc : Resolving) (v : Visit) : Resolving := applyPolicy id v.1.1 v.1.2 acc v.2

theorem foldl_applyColumn (id acc) :
    G.iterAnnotatedColumns.foldl ((mk G).applyColumn id) acc = (visits G).foldl (applyVisit id) acc := by
  unfold visits columnVisits applyVisit applyColumn
  simp only [foldl_flatMap, foldl_map]

/-- The mask that a policy puts on a column, for the session. -/
def maskOf (id : Identity) (p : Policy) : Option Expr :=
  match p.rule with
  | .mask expression => if p.appliesToGroups id.orgGroups then some expression else none
  | .rowFilter _ => none

/-- The row filter that a policy puts on a table, for the session. -/
def filterOf (id : Identity) (p : Policy) : Option Expr :=
  match p.rule with
  | .mask _ => none
  | .rowFilter predicate => if p.appliesToGroups id.orgGroups then some predicate else none

theorem applyVisit_cases (id acc v) :
    (∃ e, maskOf id v.2 = some e ∧ filterOf id v.2 = none ∧ applyVisit id acc v = if v.1 ∈ acc.maskKeysSeen then acc
      else { acc with
        maskKeysSeen := insert v.1 acc.maskKeysSeen
        masks := acc.masks ++ [⟨v.1.1, v.1.2, e, none, none⟩] }) ∨
    (∃ e, maskOf id v.2 = none ∧ filterOf id v.2 = some e ∧ applyVisit id acc v =
      if (v.1.1, v.2.id) ∈ acc.rowFilterSeen then acc
      else { acc with
        rowFilterSeen := insert (v.1.1, v.2.id) acc.rowFilterSeen
        filtersByTable := acc.filtersByTable.insert v.1.1
          (((acc.filtersByTable.lookup v.1.1).map fun old => .op "AND" [old, e]).getD e) }) ∨
    (maskOf id v.2 = none ∧ filterOf id v.2 = none ∧ applyVisit id acc v = acc) := by
  unfold applyVisit applyPolicy maskOf filterOf
  cases hrule : v.2.rule with
  | mask e =>
    by_cases ha : v.2.appliesToGroups id.orgGroups
    · exact .inl ⟨e, by simp [ha], rfl, by simp [ha]⟩
    · exact .inr (.inr ⟨by simp [ha], rfl, by simp [ha]⟩)
  | rowFilter e =>
    by_cases ha : v.2.appliesToGroups id.orgGroups
    · exact .inr (.inl ⟨e, rfl, by simp [ha], by simp [ha]⟩)
    · exact .inr (.inr ⟨rfl, by simp [ha], by simp [ha]⟩)

/-! ## Masks -/

def firstMask (id : Identity) (vs : List Visit) (k : TableReference × String) : Option Expr :=
  vs.findSome? fun v => if v.1 = k then maskOf id v.2 else none

/-- What the loop has made of the masks. -/
structure MasksResolved (id : Identity) (done : List Visit) (acc : Resolving) : Prop where
  nodup : (acc.masks.map fun m => (m.table, m.column)).Nodup
  mem_masks : ∀ m, m ∈ acc.masks ↔ ∃ e, firstMask id done (m.table, m.column) = some e ∧
    m = ⟨m.table, m.column, e, none, none⟩
  mem_seen : ∀ k, k ∈ acc.maskKeysSeen ↔ (firstMask id done k).isSome

theorem firstMask_concat (id done v k) :
    firstMask id (done ++ [v]) k = (firstMask id done k).or (if v.1 = k then maskOf id v.2 else none) := by
  simp [firstMask, findSome?_append]

variable {acc : Resolving} {done : List Visit} {id : Identity} {v : Visit} {e : Expr} {p : Policy}
  {G : OrgGovernance} {s : RuleStorage} {policies : List Policy} {col : SemanticTableColumn}

theorem MasksResolved.of_same {done' acc'}
    (h : MasksResolved id done acc) (hf : ∀ k, firstMask id done' k = firstMask id done k)
    (hm : acc'.masks = acc.masks) (hs : acc'.maskKeysSeen = acc.maskKeysSeen) : MasksResolved id done' acc' where
  nodup := hm ▸ h.nodup
  mem_masks := by
    intro m
    rw [hm, hf]
    exact h.mem_masks m
  mem_seen := by
    intro k
    rw [hs, hf]
    exact h.mem_seen k

theorem firstMask_concat_of_none (hm : maskOf id v.2 = none) (done k) : firstMask id (done ++ [v]) k = firstMask id done k := by
  rw [firstMask_concat, hm, ite_self, or_none]

theorem firstMask_concat_of_isSome (hs : (firstMask id done v.1).isSome) (k) :
    firstMask id (done ++ [v]) k = firstMask id done k := by
  rw [firstMask_concat]
  split_ifs with hk
  · subst hk
    exact or_of_isSome hs
  · exact or_none

theorem MasksResolved.add (h : MasksResolved id done acc) (hma : maskOf id v.2 = some e)
    (hs : v.1 ∉ acc.maskKeysSeen) :
    MasksResolved id (done ++ [v]) { acc with
      maskKeysSeen := insert v.1 acc.maskKeysSeen
      masks := acc.masks ++ [⟨v.1.1, v.1.2, e, none, none⟩] } := by
  have hn : firstMask id done v.1 = none := by
    rw [← not_isSome_iff_eq_none]
    exact fun hso => hs ((h.mem_seen v.1).mpr hso)
  have hf : ∀ k, firstMask id (done ++ [v]) k = if v.1 = k then some e else firstMask id done k := by
    intro k
    rw [firstMask_concat, hma]
    split_ifs with hk
    · rw [← hk, hn]
      rfl
    · exact or_none
  -- what there is was put on other columns
  have hne : ∀ m ∈ acc.masks, v.1 ≠ (m.table, m.column) := by
    intro m hm heq
    obtain ⟨e', he', -⟩ := (h.mem_masks m).mp hm
    rw [← heq, hn] at he'
    cases he'
  refine ⟨?_, fun m => ?_, fun k => ?_⟩
  · dsimp only
    rw [map_append, nodup_append]
    refine ⟨h.nodup, nodup_singleton _, fun k hk k' hk' => ?_⟩
    obtain ⟨m, hm, rfl⟩ := mem_map.mp hk
    rw [mem_singleton.mp hk']
    exact (hne m hm).symm
  · dsimp only
    rw [mem_append, mem_singleton, hf]
    constructor
    · rintro (hm | rfl)
      · rw [if_neg (hne m hm)]
        exact (h.mem_masks m).mp hm
      · exact ⟨e, if_pos rfl, rfl⟩
    · rintro ⟨e', he', hm⟩
      split_ifs at he' with hk
      · obtain rfl := some.inj he'
        rw [hm, hk]
        exact .inr rfl
      · exact .inl ((h.mem_masks m).mpr ⟨e', he', hm⟩)
  · dsimp only
    rw [Finset.mem_insert, h.mem_seen, hf]
    split_ifs with hk
    · simp [hk]
    · rw [or_iff_right (Ne.symm hk)]

theorem MasksResolved.visit (h : MasksResolved id done acc)
    (v) : MasksResolved id (done ++ [v]) (applyVisit id acc v) := by
  rcases applyVisit_cases id acc v with ⟨e, hm, -, heq⟩ | ⟨e, hm, -, heq⟩ | ⟨hm, -, heq⟩
  · rw [heq]
    split_ifs with hs
    · exact h.of_same (firstMask_concat_of_isSome ((h.mem_seen _).mp hs)) rfl rfl
    · exact h.add hm hs
  · refine h.of_same (firstMask_concat_of_none hm done) ?_ ?_
    · rw [heq]; split_ifs <;> rfl
    · rw [heq]; split_ifs <;> rfl
  · rw [heq]
    exact h.of_same (firstMask_concat_of_none hm done) rfl rfl

/-! ## Row filters -/

/-- A policy that puts a row filter on a table has been met. -/
def Filters (id : Identity) (vs : List Visit) (t : TableReference) (p : Policy) : Prop :=
  (∃ c, ((t, c), p) ∈ vs) ∧ (filterOf id p).isSome

/-- What the loop has made of the row filters: one conjunct for each policy. -/
structure FiltersResolved (id : Identity) (done : List Visit) (acc : Resolving) : Prop where
  lookup_eq : ∀ t, ∃ ps : List Policy, ps.Nodup ∧ (∀ p, p ∈ ps ↔ Filters id done t p) ∧
    acc.filtersByTable.lookup t = conjunction (ps.filterMap (filterOf id))
  mem_seen : ∀ t i, (t, i) ∈ acc.rowFilterSeen ↔ ∃ p, Filters id done t p ∧ p.id = i

/-- Policies are told apart by their ids. -/
def IdsTellApart (vs : List Visit) : Prop := ∀ v ∈ vs, ∀ v' ∈ vs, v.2.id = v'.2.id → v.2 = v'.2

theorem filters_concat {t} :
    Filters id (done ++ [v]) t p ↔ Filters id done t p ∨ (v.1.1 = t ∧ v.2 = p ∧ (filterOf id p).isSome) := by
  unfold Filters
  constructor
  · rintro ⟨⟨c, hc⟩, hs⟩
    rcases mem_append.mp hc with hc | hc
    · exact .inl ⟨⟨c, hc⟩, hs⟩
    · obtain rfl := mem_singleton.mp hc
      exact .inr ⟨rfl, rfl, hs⟩
  · rintro (⟨⟨c, hc⟩, hs⟩ | ⟨rfl, rfl, hs⟩)
    · exact ⟨⟨c, mem_append_left _ hc⟩, hs⟩
    · exact ⟨⟨v.1.2, mem_append_right _ (mem_singleton_self v)⟩, hs⟩

theorem FiltersResolved.of_same {done' acc'}
    (h : FiltersResolved id done acc) (hf : ∀ t p, Filters id done' t p ↔ Filters id done t p)
    (hl : acc'.filtersByTable = acc.filtersByTable) (hs : acc'.rowFilterSeen = acc.rowFilterSeen) :
    FiltersResolved id done' acc' where
  lookup_eq := by
    intro t
    simp only [hl, hf]
    exact h.lookup_eq t
  mem_seen := by
    intro t i
    simp only [hs, hf]
    exact h.mem_seen t i

theorem conjunction_concat (ps p) : conjunction (ps ++ [p]) = andPredicate (conjunction ps) p := by
  rw [conjunction, foldl_append]
  rfl

theorem filters_concat_of_none (hf : filterOf id v.2 = none)
    (t p) : Filters id (done ++ [v]) t p ↔ Filters id done t p := by
  rw [filters_concat, or_iff_left]
  rintro ⟨-, rfl, hs⟩
  rw [hf] at hs
  cases hs

theorem FiltersResolved.filters_concat_of_seen (h : FiltersResolved id done acc) (hi : IdsTellApart (done ++ [v]))
    (hs : (v.1.1, v.2.id) ∈ acc.rowFilterSeen) (t p) :
    Filters id (done ++ [v]) t p ↔ Filters id done t p := by
  rw [filters_concat, or_iff_left_iff_imp]
  rintro ⟨rfl, rfl, -⟩
  obtain ⟨p, hp, hid⟩ := (h.mem_seen _ _).mp hs
  obtain ⟨c, hc⟩ := hp.1
  have hsa : p = v.2 := hi _ (mem_append_left _ hc) v (by simp) hid
  exact hsa ▸ hp

theorem FiltersResolved.add (h : FiltersResolved id done acc) (hf : filterOf id v.2 = some e)
    (hse : (v.1.1, v.2.id) ∉ acc.rowFilterSeen) :
    FiltersResolved id (done ++ [v]) { acc with
      rowFilterSeen := insert (v.1.1, v.2.id) acc.rowFilterSeen
      filtersByTable := acc.filtersByTable.insert v.1.1
        (((acc.filtersByTable.lookup v.1.1).map fun old => .op "AND" [old, e]).getD e) } := by
  have hs : (filterOf id v.2).isSome := by rw [hf]; rfl
  have hno : ¬ Filters id done v.1.1 v.2 := fun hfi => hse ((h.mem_seen _ _).mpr ⟨v.2, hfi, rfl⟩)
  refine ⟨fun t => ?_, fun t i => ?_⟩
  · dsimp only
    obtain ⟨ps, hn, hm, hl⟩ := h.lookup_eq t
    by_cases ht : v.1.1 = t
    · subst ht
      refine ⟨ps ++ [v.2], ?_, fun p => ?_, ?_⟩
      · rw [← concat_eq_append]
        exact hn.concat fun hin => hno ((hm v.2).mp hin)
      · rw [mem_append, mem_singleton, hm, filters_concat]
        refine or_congr_right ⟨?_, fun hp => hp.2.1.symm⟩
        rintro rfl
        exact ⟨rfl, rfl, hs⟩
      · rw [lookup_insert, hl, filterMap_append, filterMap_cons, hf, filterMap_nil,
          conjunction_concat]
        cases conjunction (ps.filterMap (filterOf id)) <;> rfl
    · refine ⟨ps, hn, fun p => ?_, ?_⟩
      · rw [hm, filters_concat, or_iff_left fun hp => ht hp.1]
      · rw [lookup_insert_ne (Ne.symm ht), hl]
  · dsimp only
    rw [Finset.mem_insert, h.mem_seen]
    simp only [filters_concat]
    constructor
    · rintro (heq | ⟨p, hp, rfl⟩)
      · obtain ⟨rfl, rfl⟩ := Prod.mk.inj heq
        exact ⟨v.2, .inr ⟨rfl, rfl, hs⟩, rfl⟩
      · exact ⟨p, .inl hp, rfl⟩
    · rintro ⟨p, hp | ⟨rfl, rfl, -⟩, rfl⟩
      · exact .inr ⟨p, hp, rfl⟩
      · exact .inl rfl

theorem FiltersResolved.visit (h : FiltersResolved id done acc)
    (v) (hi : IdsTellApart (done ++ [v])) : FiltersResolved id (done ++ [v]) (applyVisit id acc v) := by
  rcases applyVisit_cases id acc v with ⟨e, -, hf, heq⟩ | ⟨e, -, hf, heq⟩ | ⟨-, hf, heq⟩
  · refine h.of_same (filters_concat_of_none hf) ?_ ?_
    · rw [heq]; split_ifs <;> rfl
    · rw [heq]; split_ifs <;> rfl
  · rw [heq]
    split_ifs with hs
    · exact h.of_same (h.filters_concat_of_seen hi hs) rfl rfl
    · exact h.add hf hs
  · rw [heq]
    exact h.of_same (filters_concat_of_none hf) rfl rfl

/-! ## What is resolved -/

theorem resolved_run : ∀ todo {done acc},
    IdsTellApart (done ++ todo) → MasksResolved id done acc → FiltersResolved id done acc →
    MasksResolved id (done ++ todo) (todo.foldl (applyVisit id) acc) ∧
      FiltersResolved id (done ++ todo) (todo.foldl (applyVisit id) acc)
  | [], done, acc, _, hm, hf => by
    rw [append_nil]
    exact ⟨hm, hf⟩
  | v :: todo, done, acc, hi, hm, hf => by
    rw [append_cons] at hi ⊢
    have hi' : IdsTellApart (done ++ [v]) := fun u hu u' hu' =>
      hi u (mem_append_left _ hu) u' (mem_append_left _ hu')
    exact resolved_run todo hi (hm.visit v) (hf.visit v hi')

def filterFor (filters : List RowFilter) (t : TableReference) : Option Expr :=
  KeyedList.bodyAt RowFilter.table RowFilter.predicate filters t

/-- The same masks, and row filters that have the same value on every row. -/
def SameResolution (r r' : List ColumnMask × List RowFilter) : Prop :=
  r.1.Perm r'.1 ∧ ∀ t, SamePredicate (filterFor r.2 t) (filterFor r'.2 t)

theorem filterFor_sorted (m : AList fun _ : TableReference => Expr) (t) :
    filterFor ((m.entries.mergeSort fun a b => a.1.le b.1).map fun e => ⟨e.1, e.2, none, none⟩) t = m.lookup t := by
  have hp := List.mergeSort_perm m.entries fun a b => a.1.le b.1
  have hn : (((m.entries.mergeSort fun a b => a.1.le b.1).map fun e =>
      (⟨e.1, e.2, none, none⟩ : RowFilter)).map RowFilter.table).Nodup := by
    rw [List.map_map]
    exact (hp.map _).nodup_iff.mpr m.nodupKeys
  refine Option.ext fun e => ?_
  unfold filterFor
  rw [bodyAt_eq_some_iff hn]
  constructor
  · rintro ⟨f, hf, rfl, rfl⟩
    obtain ⟨⟨t', e'⟩, hen, rfl⟩ := List.mem_map.mp hf
    exact mem_lookup_iff.mpr (hp.mem_iff.mp hen)
  · intro he
    have hen := hp.mem_iff.mpr (mem_lookup_iff.mp (Option.mem_def.mpr he))
    exact ⟨_, List.mem_map.mpr ⟨_, hen, rfl⟩, rfl, rfl⟩

/-- The masks and row filters of a session, from the visits. -/
theorem resolve_spec (hi : IdsTellApart (visits G)) (id : Identity) : (∀ m, m ∈ ((mk G).resolveForIdentity id).1 ↔
      ∃ e, firstMask id (visits G) (m.table, m.column) = some e ∧ m = ⟨m.table, m.column, e, none, none⟩) ∧
    ((mk G).resolveForIdentity id).1.Nodup ∧
    ∀ t, ∃ ps : List Policy, ps.Nodup ∧ (∀ p, p ∈ ps ↔ Filters id (visits G) t p) ∧
      filterFor ((mk G).resolveForIdentity id).2 t = conjunction (ps.filterMap (filterOf id)) := by
  have hst : MasksResolved id [] ⟨[], ∅, ∅, ∅⟩ := ⟨nodup_nil, by simp [firstMask], by simp [firstMask]⟩
  have hs : FiltersResolved id [] ⟨[], ∅, ∅, ∅⟩ :=
    ⟨fun t => ⟨[], nodup_nil, by simp [Filters], rfl⟩, by simp [Filters]⟩
  obtain ⟨hm, hf⟩ := resolved_run (visits G) hi hst hs
  unfold resolveForIdentity
  simp only [foldl_applyColumn, filterFor_sorted]
  exact ⟨hm.mem_masks, hm.nodup.of_map _, hf.lookup_eq⟩

/-- Two registries with the same row-filter policies resolve to the same when the first masks of the columns are. -/
theorem sameResolution_iff {G'} (hi : IdsTellApart (visits G))
    (hi' : IdsTellApart (visits G')) (hf : ∀ t p, Filters id (visits G) t p ↔ Filters id (visits G') t p) :
    SameResolution ((mk G).resolveForIdentity id) ((mk G').resolveForIdentity id) ↔
      ∀ k, firstMask id (visits G) k = firstMask id (visits G') k := by
  obtain ⟨hm, hn, hl⟩ := resolve_spec hi id
  obtain ⟨hm', hn', hl'⟩ := resolve_spec hi' id
  have hs : ∀ t, SamePredicate (filterFor ((mk G).resolveForIdentity id).2 t)
      (filterFor ((mk G').resolveForIdentity id).2 t) := by
    intro t
    obtain ⟨ps, hps, hp, heq⟩ := hl t
    obtain ⟨ps', hps', hp', heq'⟩ := hl' t
    have hpe : ps.Perm ps' := (perm_ext_iff_of_nodup hps hps').mpr fun p => by
      rw [hp, hp', hf]
    rw [heq, heq']
    exact samePredicate_conjunction (hpe.filterMap _)
  unfold SameResolution
  rw [and_iff_left hs, perm_ext_iff_of_nodup hn hn']
  simp only [hm, hm']
  constructor
  · intro h k
    refine ext fun e => ?_
    have hk := h ⟨k.1, k.2, e, none, none⟩
    constructor
    · intro he
      obtain ⟨e', he', heq⟩ := hk.mp ⟨e, he, rfl⟩
      cases heq
      exact he'
    · intro he
      obtain ⟨e', he', heq⟩ := hk.mpr ⟨e, he, rfl⟩
      cases heq
      exact he'
  · intro h m
    rw [h]

/-! ## The registries of one content -/

abbrev columnKey (c : SemanticTableColumn) : TableReference × String := (c.table, c.column)

/-- The content has one policy for an id and one entry for a column. -/
structure UniqueKeys (s : RuleStorage) : Prop where
  policies : (s.policies.map (·.id)).Nodup
  columns : (s.columns.map columnKey).Nodup

/-- A registry that the content is composed into: the maps of the content and of the registry are iterated over in
some order. -/
def RegistryOf (s : RuleStorage) (G : OrgGovernance) : Prop :=
  ∃ policies columns G₀, policies.Perm s.policies ∧ columns.Perm s.columns ∧
    ({ s with policies, columns } : RuleStorage).composeTags = .ok (some ⟨G₀⟩) ∧
    G.tags = G₀.tags ∧ G.policiesByTag = G₀.policiesByTag ∧ G.columns.entries.Perm G₀.columns.entries

theorem lookup_foldlM_addColumn {known} (k) : ∀ {columns m₀ m},
      columns.foldlM (addColumn known) m₀ = .ok m → (columns.map columnKey).Nodup →
      (∀ c ∈ columns, columnKey c ∉ m₀) →
      m.lookup k = (bodyAt columnKey tags columns k).or (m₀.lookup k)
  | [], m₀, m, h, _, _ => by
    rw [foldlM_nil, pure_ok_iff] at h
    rw [h]
    rfl
  | c :: columns, m₀, m, h, hn, hne => by
    rw [foldlM_cons, bind_ok_iff] at h
    obtain ⟨m₁, h₁, h⟩ := h
    rw [map_cons, nodup_cons] at hn
    unfold addColumn at h₁
    split at h₁
    next => cases h₁
    next =>
      cases h₁
      have hf : m₀.lookup (c.table, c.column) = none := lookup_eq_none.mpr (hne c mem_cons_self)
      rw [lookup_foldlM_addColumn k h hn.2 ?_, bodyAt_cons]
      · by_cases hk : columnKey c = k
        · have hl : bodyAt columnKey tags columns k = none := by
            rw [eq_none_iff_forall_not_mem]
            intro tags ht
            obtain ⟨c', hc', hke, -⟩ := (bodyAt_eq_some_iff hn.2).mp ht
            exact hn.1 (mem_map.mpr ⟨c', hc', hke.trans hk.symm⟩)
          rw [if_pos hk, hl, ← hk, lookup_insert, hf]
          rfl
        · rw [if_neg hk, lookup_insert_ne (Ne.symm hk)]
      · intro c' hc' hm
        rcases (mem_insert _).mp hm with heq | hm
        · exact hn.1 (mem_map.mpr ⟨c', hc', heq⟩)
        · exact hne c' (mem_cons_of_mem c hc') hm

/-- What a registry has of a content, with the policies in the given order: the policies of each tag, and the columns
that have a tag. -/
structure Holds (s : RuleStorage) (policies : List Policy) (G : OrgGovernance) : Prop where
  perm : policies.Perm s.policies
  policiesForTag : ∀ tag, G.policiesForTag tag = policies.filter fun p => p.tag = tag
  nodup : (G.iterAnnotatedColumns.map fun c => (c.1, c.2.1)).Nodup
  mem_columns : ∀ c, c ∈ G.iterAnnotatedColumns ↔ ⟨c.1, c.2.1, c.2.2⟩ ∈ s.columns ∧ c.2.2 ≠ []

theorem mem_iterAnnotatedColumns {c} : c ∈ G.iterAnnotatedColumns ↔ G.columns.lookup (c.1, c.2.1) = some c.2.2 := by
  unfold iterAnnotatedColumns
  rw [← Option.mem_def, mem_lookup_iff, List.mem_map]
  constructor
  · rintro ⟨e, he, rfl⟩
    exact he
  · intro he
    exact ⟨_, he, rfl⟩

theorem exists_holds (hu : UniqueKeys s) (h : RegistryOf s G) : ∃ policies, Holds s policies G := by
  obtain ⟨policies, columns, G₀, hp, hco, hc, -, hby, he⟩ := h
  unfold RuleStorage.composeTags at hc
  split at hc
  · cases hc
  simp only [bind_ok_iff, mapError_ok_iff, pure_ok_iff, Option.some.injEq,
    mk.injEq] at hc
  obtain ⟨G₁, hb, rfl⟩ := hc
  refine ⟨policies, hp, fun tag => ?_, ?_, fun c => ?_⟩
  · rw [← policiesForTag_of_build hb tag, policiesForTag, policiesForTag, hby]
  · unfold iterAnnotatedColumns
    rw [List.map_map]
    exact G.columns.nodupKeys
  · have hn : ((columns.filter fun c => !c.tags.isEmpty).map columnKey).Nodup :=
      ((hco.map columnKey).nodup_iff.mpr hu.columns).sublist (List.filter_sublist.map _)
    have hl : G.columns.lookup (c.1, c.2.1) =
        bodyAt columnKey tags (columns.filter fun c => !c.tags.isEmpty) (c.1, c.2.1) := by
      simp only [build, bind_ok_iff, pure_ok_iff] at hb
      obtain ⟨known, -, byTag, -, cols, hcs, rfl⟩ := hb
      rw [perm_lookup he, lookup_foldlM_addColumn _ hcs hn (by simp), lookup_empty,
        Option.or_none]
    rw [mem_iterAnnotatedColumns, hl, bodyAt_eq_some_iff hn]
    constructor
    · rintro ⟨col, hcl, hk, ht⟩
      rw [List.mem_filter] at hcl
      obtain ⟨t, n, tags⟩ := c
      obtain ⟨t', n', tags'⟩ := col
      cases hk
      cases ht
      exact ⟨hco.mem_iff.mp hcl.1, by simpa using hcl.2⟩
    · rintro ⟨hcl, hne⟩
      refine ⟨⟨c.1, c.2.1, c.2.2⟩, List.mem_filter.mpr ⟨hco.mem_iff.mpr hcl, ?_⟩, rfl, rfl⟩
      simpa using hne

/-! ## The mask of a column -/

/-- The first mask of the policies of a column's tags. -/
def columnMask (id : Identity) (policies : List Policy) (tags : List TagId) : Option Expr :=
  tags.findSome? fun tag => (policies.filter fun p => p.tag = tag).findSome? (maskOf id)

theorem findSome?_flatMap {α β γ : Type} (f) (g : β → Option γ) (l : List α) :
    (l.flatMap f).findSome? g = l.findSome? fun a => (f a).findSome? g := by
  induction l with
  | nil => rfl
  | cons a l ih =>
    rw [flatMap_cons, findSome?_append, ih, findSome?_cons]
    cases (f a).findSome? g <;> rfl

theorem findSome?_of_unique {α β : Type} {f : α → Option β} {a} : ∀ {l : List α}, a ∈ l →
    (∀ x ∈ l, (f x).isSome → x = a) → l.findSome? f = f a
  | x :: l, ha, h => by
    rw [findSome?_cons]
    cases hx : f x with
    | some b =>
      have hxa : x = a := h x mem_cons_self (by rw [hx]; rfl)
      rw [← hxa, hx]
    | none =>
      rcases mem_cons.mp ha with rfl | ha
      · rw [hx, findSome?_eq_none_iff]
        intro y hy
        by_contra hne
        have hya := h y (mem_cons_of_mem _ hy) (isSome_iff_ne_none.mpr hne)
        exact hne (hya ▸ hx)
      · exact findSome?_of_unique ha fun y hy => h y (mem_cons_of_mem x hy)

theorem findSome?_columnVisits (id) (c : TableReference × String × List TagId)
    (k : TableReference × String) : (columnVisits G c).findSome? (fun v => if v.1 = k then maskOf id v.2 else none) =
      if (c.1, c.2.1) = k then c.2.2.findSome? fun tag => (G.policiesForTag tag).findSome? (maskOf id) else none := by
  unfold columnVisits
  rw [findSome?_map, ← findSome?_flatMap]
  split_ifs with hk
  · subst hk
    simp only [Function.comp_def, if_true]
  · simp [Function.comp_def, hk]

theorem Holds.firstMask_eq_some_iff
    (h : Holds s policies G) (id k e) :
    firstMask id (visits G) k = some e ↔
      ∃ col ∈ s.columns, columnKey col = k ∧ columnMask id policies col.tags = some e := by
  have hf : firstMask id (visits G) k = G.iterAnnotatedColumns.findSome? fun c =>
      if (c.1, c.2.1) = k then columnMask id policies c.2.2 else none := by
    unfold firstMask visits columnMask
    simp only [findSome?_flatMap, findSome?_columnVisits, h.policiesForTag]
  rw [hf]
  constructor
  · intro hs
    obtain ⟨c, hc, hm⟩ := exists_of_findSome?_eq_some hs
    split_ifs at hm with hk
    exact ⟨_, ((h.mem_columns c).mp hc).1, hk, hm⟩
  · rintro ⟨col, hco, rfl, hm⟩
    have hne : col.tags ≠ [] := by
      intro hn
      rw [hn] at hm
      cases hm
    have hc : (col.table, col.column, col.tags) ∈ G.iterAnnotatedColumns := (h.mem_columns _).mpr ⟨hco, hne⟩
    rw [findSome?_of_unique hc fun c' hc' hs => ?_, if_pos rfl, hm]
    split_ifs at hs with hk
    · exact inj_on_of_nodup_map h.nodup hc' hc hk
    · cases hs

/-- A policy that may give a column its mask: it masks, and no policy of the tags before its own does. -/
def Contends (s : RuleStorage) (id : Identity) (col : SemanticTableColumn) (p : Policy) : Prop :=
  p ∈ s.policies ∧ (maskOf id p).isSome ∧
    ∃ before after, col.tags = before ++ p.tag :: after ∧ ∀ q ∈ s.policies, q.tag ∈ before → maskOf id q = none

theorem exists_contends (hpe : policies.Perm s.policies) (h : columnMask id policies col.tags = some e) :
    ∃ p, Contends s id col p ∧ maskOf id p = some e := by
  obtain ⟨before, tag, after, ht, h, hb⟩ := findSome?_eq_some_iff.mp h
  obtain ⟨p, hp, hm⟩ := exists_of_findSome?_eq_some h
  rw [mem_filter, decide_eq_true_iff] at hp
  obtain ⟨hp, rfl⟩ := hp
  refine ⟨p, ⟨hpe.mem_iff.mp hp, by rw [hm]; rfl, before, after, ht, fun q hq hqt => ?_⟩, hm⟩
  exact findSome?_eq_none_iff.mp (hb _ hqt) q
    (mem_filter.mpr ⟨hpe.mem_iff.mpr hq, decide_eq_true rfl⟩)

theorem Contends.columnMask_isSome (hpe : policies.Perm s.policies) (h : Contends s id col p) :
    ∃ e, columnMask id policies col.tags = some e := by
  obtain ⟨hp, hs, before, after, ht, -⟩ := h
  rw [← isSome_iff_exists, isSome_iff_ne_none]
  intro hn
  have hta := findSome?_eq_none_iff.mp hn p.tag (by rw [ht]; simp)
  have hm := findSome?_eq_none_iff.mp hta p
    (mem_filter.mpr ⟨hpe.mem_iff.mpr hp, decide_eq_true rfl⟩)
  rw [hm] at hs
  cases hs

/-- A contender is picked when its policy comes first. -/
theorem Contends.columnMask_first {rest} (hp : (p :: rest).Perm s.policies) (h : Contends s id col p) :
    columnMask id (p :: rest) col.tags = maskOf id p := by
  obtain ⟨-, hs, before, after, ht, hb⟩ := h
  obtain ⟨e, he⟩ := isSome_iff_exists.mp hs
  rw [he]
  refine findSome?_eq_some_iff.mpr ⟨before, p.tag, after, ht, ?_, fun tag hta => ?_⟩
  · rw [filter_cons, if_pos (decide_eq_true rfl), findSome?_cons, he]
  · refine findSome?_eq_none_iff.mpr fun q hq => ?_
    rw [mem_filter, decide_eq_true_iff] at hq
    exact hb q (hp.mem_iff.mp hq.1) (hq.2 ▸ hta)

/-! ## All registries of a content -/

theorem Holds.mem_visits (h : Holds s policies G) {t c} :
    ((t, c), p) ∈ visits G ↔ p ∈ s.policies ∧ ∃ tags, ⟨t, c, tags⟩ ∈ s.columns ∧ p.tag ∈ tags := by
  unfold visits columnVisits
  simp only [List.mem_flatMap, List.mem_map, h.policiesForTag, List.mem_filter, decide_eq_true_eq, h.perm.mem_iff,
    h.mem_columns]
  constructor
  · rintro ⟨⟨t', c', tags⟩, ⟨hc, -⟩, p', ⟨tag, ht, hp, rfl⟩, heq⟩
    cases heq
    exact ⟨hp, tags, hc, ht⟩
  · rintro ⟨hp, tags, hc, ht⟩
    exact ⟨(t, c, tags), ⟨hc, List.ne_nil_of_mem ht⟩, p, ⟨p.tag, ht, hp, rfl⟩, rfl⟩

theorem Holds.idsTellApart (hu : UniqueKeys s)
    (h : Holds s policies G) : IdsTellApart (visits G) := fun _ hv _ hv' hid =>
  inj_on_of_nodup_map hu.policies (h.mem_visits.mp hv).1 (h.mem_visits.mp hv').1 hid

theorem Holds.sameResolution_iff (hu : UniqueKeys s) {policies' G'} (h : Holds s policies G)
    (h' : Holds s policies' G') (id) :
    SameResolution ((TagBasedEnforcer.mk G).resolveForIdentity id) ((TagBasedEnforcer.mk G').resolveForIdentity id) ↔
      ∀ col ∈ s.columns, columnMask id policies col.tags = columnMask id policies' col.tags := by
  rw [TagBasedEnforcer.sameResolution_iff (h.idsTellApart hu) (h'.idsTellApart hu) fun t p => by
    unfold Filters
    simp only [h.mem_visits, h'.mem_visits]]
  have hunique_col : ∀ col ∈ s.columns, ∀ col' ∈ s.columns, columnKey col' = columnKey col → col' = col :=
    fun col hc col' hc' hke => inj_on_of_nodup_map hu.columns hc' hc hke
  constructor
  · intro hs col hc
    have hk := hs (columnKey col)
    refine ext fun e => ?_
    constructor
    · intro he
      have hf := (h.firstMask_eq_some_iff id (columnKey col) e).mpr ⟨col, hc, rfl, he⟩
      rw [hk] at hf
      obtain ⟨col', hc', hke, he'⟩ := (h'.firstMask_eq_some_iff id (columnKey col) e).mp hf
      exact hunique_col col hc col' hc' hke ▸ he'
    · intro he
      have hf := (h'.firstMask_eq_some_iff id (columnKey col) e).mpr ⟨col, hc, rfl, he⟩
      rw [← hk] at hf
      obtain ⟨col', hc', hke, he'⟩ := (h.firstMask_eq_some_iff id (columnKey col) e).mp hf
      exact hunique_col col hc col' hc' hke ▸ he'
  · intro hs k
    refine ext fun e => ?_
    rw [h.firstMask_eq_some_iff, h'.firstMask_eq_some_iff]
    exact exists_congr fun col => and_congr_right fun hc => by rw [hs col hc]

theorem foldlM_addPolicy_ok_iff {tags} : ∀ {policies : List Policy} {byTag},
      (∃ byTag', policies.foldlM (OrgGovernance.addPolicy tags) byTag = .ok byTag') ↔ ∀ p ∈ policies, p.tag ∈ tags
  | [], byTag => by simp [pure, Except.pure]
  | p :: policies, byTag => by
    rw [foldlM_cons, forall_mem_cons]
    unfold OrgGovernance.addPolicy
    by_cases hp : p.tag ∈ tags
    · rw [if_pos hp, and_iff_right hp]
      exact foldlM_addPolicy_ok_iff
    · rw [if_neg hp]
      refine ⟨?_, fun h => absurd h.1 hp⟩
      rintro ⟨byTag', h⟩
      cases h

theorem exists_registry {E : TagBasedEnforcer} (hc : s.composeTags = .ok (some E))
    (hpe : policies.Perm s.policies) :
    ∃ G, RegistryOf s G ∧ ∀ tag, G.policiesForTag tag = policies.filter fun p => p.tag = tag := by
  unfold RuleStorage.composeTags at hc
  rw [← hpe.isEmpty_eq] at hc
  split_ifs at hc with he
  · cases hc
  simp only [Except.bind_ok_iff, Except.mapError_ok_iff, Except.pure_ok_iff, OrgGovernance.build] at hc
  obtain ⟨G, ⟨tags, ht, byTag, hby, columns, hco, -⟩, -⟩ := hc
  have hk := foldlM_addPolicy_ok_iff.mp ⟨byTag, hby⟩
  obtain ⟨byTag', hb'⟩ := foldlM_addPolicy_ok_iff.mpr fun p hp => hk p (hpe.mem_iff.mp hp)
  have hb : OrgGovernance.build s.tags policies (s.columns.filter fun c => !c.tags.isEmpty) =
      .ok ⟨tags, byTag', columns⟩ := by
    rw [OrgGovernance.build, ht]
    dsimp only [bind, Except.bind]
    rw [hb']
    dsimp only
    rw [hco]
    rfl
  refine ⟨⟨tags, byTag', columns⟩, ⟨policies, s.columns, _, hpe, .rfl, ?_, rfl, rfl, .rfl⟩,
    policiesForTag_of_build hb⟩
  rw [RuleStorage.composeTags, if_neg he]
  dsimp only
  rw [hb]
  rfl

/-- However the maps are iterated over, a session gets the same masks and row filters, iff the policies that may
give a column its mask all have the same expression. -/
theorem tag_order_irrelevant_iff {s : RuleStorage} (hunique : UniqueKeys s) {E : TagBasedEnforcer}
    (hcomposed : s.composeTags = .ok (some E)) (id : Identity) :
    (∀ G G', RegistryOf s G → RegistryOf s G' →
        SameResolution ((TagBasedEnforcer.mk G).resolveForIdentity id)
          ((TagBasedEnforcer.mk G').resolveForIdentity id)) ↔
      ∀ col ∈ s.columns, ∀ p q, Contends s id col p → Contends s id col q → maskOf id p = maskOf id q := by
  constructor
  · intro hsa col hc p q hp hq
    -- each of the two is first in some order
    have hf : ∀ p, Contends s id col p → ∃ G policies, RegistryOf s G ∧ Holds s policies G ∧
        columnMask id policies col.tags = maskOf id p := by
      intro p hp
      obtain ⟨before, after, hs⟩ := List.append_of_mem hp.1
      have hpm : (p :: (before ++ after)).Perm s.policies := by
        rw [hs]
        exact List.perm_middle.symm
      obtain ⟨G, hG, hpo⟩ := exists_registry hcomposed hpm
      obtain ⟨_, hh⟩ := exists_holds hunique hG
      exact ⟨G, _, hG, { hh with perm := hpm, policiesForTag := hpo }, hp.columnMask_first hpm⟩
    obtain ⟨G, policies, hG, hh, hm⟩ := hf p hp
    obtain ⟨G', policies', hG', hh', hm'⟩ := hf q hq
    rw [← hm, ← hm']
    exact (hh.sameResolution_iff hunique hh' id).mp (hsa G G' hG hG') col hc
  · intro ha G G' hG hG'
    obtain ⟨policies, hh⟩ := exists_holds hunique hG
    obtain ⟨policies', hh'⟩ := exists_holds hunique hG'
    refine (hh.sameResolution_iff hunique hh' id).mpr fun col hc => ?_
    cases hm : columnMask id policies col.tags with
    | some e =>
      obtain ⟨p, hp, hpe⟩ := exists_contends hh.perm hm
      obtain ⟨e', hm'⟩ := hp.columnMask_isSome hh'.perm
      obtain ⟨q, hq, hqe⟩ := exists_contends hh'.perm hm'
      rw [hm', ← hqe, ← hpe]
      exact ha col hc p q hp hq
    | none =>
      cases hm' : columnMask id policies' col.tags with
      | some e =>
        obtain ⟨q, hq, -⟩ := exists_contends hh'.perm hm'
        obtain ⟨e', he'⟩ := hq.columnMask_isSome hh.perm
        rw [hm] at he'
        cases he'
      | none => rfl

/-- Two tags with a policy each: the tag that comes first on the column decides. -/
theorem two_tags_in_any_order :
    let policy (id : String) (tag : TagId) (text : String) : Policy :=
      ⟨id, "acme", tag, ⟨"analyst"⟩, .mask (.literal (.utf8 text))⟩
    let s : RuleStorage :=
      ⟨[], [], [⟨⟨"pii"⟩, "acme", "PII"⟩, ⟨⟨"contact"⟩, "acme", "Contact"⟩],
        [policy "p1" ⟨"pii"⟩ "***", policy "p2" ⟨"contact"⟩ "hidden"],
        [⟨.bare "users", "email", [⟨"pii"⟩, ⟨"contact"⟩]⟩], none⟩
    let ann := ((Identity.ofUser "ann").withOrg "acme").withGroups ["analyst"]
    ∀ G G', RegistryOf s G → RegistryOf s G' →
      SameResolution ((mk G).resolveForIdentity ann)
        ((mk G').resolveForIdentity ann) := by
  intro policy s ann
  have hu : UniqueKeys s := ⟨by decide, by decide⟩
  obtain ⟨E, hE⟩ : ∃ E, s.composeTags = .ok (some E) := ⟨_, rfl⟩
  refine (tag_order_irrelevant_iff hu hE ann).mpr ?_
  -- the policy of the second tag is not a contender
  have hf : ∀ col ∈ s.columns, ∀ p, Contends s ann col p → p = policy "p1" ⟨"pii"⟩ "***" := by
    rintro col hc p ⟨hp, -, before, after, ht, hb⟩
    obtain rfl := List.mem_singleton.mp hc
    rcases List.mem_pair.mp hp with rfl | rfl
    · rfl
    · cases before with
      | nil => exact absurd (List.cons.inj ht).1 (by decide)
      | cons tag before =>
        cases (List.cons.inj ht).1
        cases hb (policy "p1" ⟨"pii"⟩ "***") List.mem_cons_self List.mem_cons_self
  intro col hc p q hp hq
  rw [hf col hc p hp, hf col hc q hq]

/-- Two policies on one tag, for two groups of a session: the same rules mask the column now one way and now the
other. -/
theorem same_rules_mask_differently :
    let policy (id group text : String) : Policy := ⟨id, "acme", ⟨"pii"⟩, ⟨group⟩, .mask (.literal (.utf8 text))⟩
    let s : RuleStorage :=
      ⟨[], [], [⟨⟨"pii"⟩, "acme", "PII"⟩], [policy "p1" "analyst" "***", policy "p2" "auditor" "hidden"],
        [⟨.bare "users", "email", [⟨"pii"⟩]⟩], none⟩
    let ann := ((Identity.ofUser "ann").withOrg "acme").withGroups ["analyst", "auditor"]
    let email : Column := ⟨some (.bare "users"), "email"⟩
    let emails (e : Expr) : LogicalPlan := .projection [e] (.tableScan (.bare "users") none [] none) [email]
    let masked (text : String) := emails (.aliasExpr (.literal (.utf8 text)) email.relation "email")
    UniqueKeys s ∧ ∃ G G', RegistryOf s G ∧ RegistryOf s G' ∧
      ¬ SameResolution ((mk G).resolveForIdentity ann)
        ((mk G').resolveForIdentity ann) ∧
      ∀ T schemaName fuel, rewrite T schemaName fuel ⟨G⟩ (emails (.column email)) ann = .ok (.yes (masked "***")) ∧
        rewrite T schemaName fuel ⟨G'⟩ (emails (.column email)) ann = .ok (.yes (masked "hidden")) := by
  intro policy s ann email emails masked
  let swapped : RuleStorage := { s with policies := [policy "p2" "auditor" "hidden", policy "p1" "analyst" "***"] }
  have hf : ∀ {G}, s.composeTags = .ok (some ⟨G⟩) → (mk G).resolveForIdentity ann =
      ([⟨.bare "users", "email", .literal (.utf8 "***"), none, none⟩], []) := by
    rintro G ⟨⟩
    unfold resolveForIdentity
    exact Prod.ext rfl (congrArg (List.map _) List.mergeSort_nil)
  have hs : ∀ {G}, swapped.composeTags = .ok (some ⟨G⟩) → (mk G).resolveForIdentity ann =
      ([⟨.bare "users", "email", .literal (.utf8 "hidden"), none, none⟩], []) := by
    rintro G ⟨⟩
    unfold resolveForIdentity
    exact Prod.ext rfl (congrArg (List.map _) List.mergeSort_nil)
  refine ⟨⟨by decide, by decide⟩, _, _, ⟨_, _, _, .rfl, .rfl, rfl, rfl, rfl, .rfl⟩,
    ⟨_, _, _, List.Perm.swap _ _ _, .rfl, (rfl : swapped.composeTags = _), rfl, rfl, .rfl⟩, ?_,
    fun T schemaName fuel => ⟨?_, ?_⟩⟩
  · rw [hf rfl, hs rfl]
    rintro ⟨hp, -⟩
    simp at hp
  · rw [rewrite_eq, hf rfl]
    rfl
  · rw [rewrite_eq, hs rfl]
    rfl

end TagBasedEnforcer

end Dataglot
