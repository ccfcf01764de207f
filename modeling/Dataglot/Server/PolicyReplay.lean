/-
A restart: the stored policies are replayed into an empty rule store, and the rules
should be the ones that were live. The replay goes by org and name, so of the policies
on one target the last by name wins; the live rules go by the order of the statements,
and a `DROP` takes the target's rule away whichever policy had made it.
-/
import Dataglot.Library.Runs
import Dataglot.Server.PolicyAdminFacts

namespace Dataglot
open DataFusion Except PolicyStore InMemoryRuleStore RuleStorage List Option

namespace PolicyAdmin

variable {S : SqlParser} {I : IterationOrder} {debug : Expr → String}

/-! ## What a stored policy is replayed as -/

theorem buildMaskRules_singleton {cfg rules} :
    buildMaskRules S I [cfg] = .ok rules ↔ ∃ rule, lowerMask S cfg = .ok rule ∧ rules = [rule] := by
  have hk : byKey [cfg] = [[cfg]] := by simp [byKey]
  have ht : topEntries [cfg] = [cfg] := by simp [topEntries]
  rw [buildMaskRules, hk, I.arrange_singleton]
  rw [flatMap_cons, flatMap_nil, append_nil, ht]
  exact mapM_singleton_ok_iff

theorem buildRowFilterRules_singleton {cfg rules} :
    buildRowFilterRules S [cfg] = .ok rules ↔ ∃ rule, lowerRowFilter S cfg = .ok rule ∧ rules = [rule] :=
  mapM_singleton_ok_iff

variable {name org table : String} {rule : PolicyValue} {change : RuleChange} {ruleStore : InMemoryRuleStore}
  {k : RuleKey} {admin : StorePolicyAdmin}

theorem persistedChanges_mask {changes} :
    persistedChanges S I org name kindMask rule = .ok changes ↔ ∃ cfg mask, rule.asMask = .ok cfg ∧
      lowerMask S cfg = .ok mask ∧ changes = [.maskUpserted { mask with org := some org }] := by
  unfold persistedChanges kindMask
  simp only [bind_ok_iff, mapError_ok_iff, pure_ok_iff, buildMaskRules_singleton]
  constructor
  · rintro ⟨cfg, hc, _, ⟨mask, hm, rfl⟩, rfl⟩
    exact ⟨cfg, mask, hc, hm, rfl⟩
  · rintro ⟨cfg, mask, hc, hm, rfl⟩
    exact ⟨cfg, hc, _, ⟨mask, hm, rfl⟩, rfl⟩

theorem persistedChanges_rowFilter {changes} :
    persistedChanges S I org name kindRowFilter rule = .ok changes ↔ ∃ cfg filter, rule.asRowFilter = .ok cfg ∧
      lowerRowFilter S cfg = .ok filter ∧ changes = [.rowFilterUpserted { filter with org := some org }] := by
  unfold persistedChanges kindRowFilter
  simp only [bind_ok_iff, mapError_ok_iff, pure_ok_iff, buildRowFilterRules_singleton]
  constructor
  · rintro ⟨cfg, hc, _, ⟨filter, hf, rfl⟩, rfl⟩
    exact ⟨cfg, filter, hc, hf, rfl⟩
  · rintro ⟨cfg, filter, hc, hf, rfl⟩
    exact ⟨cfg, hc, _, ⟨filter, hf, rfl⟩, rfl⟩

structure Upserts (debug : Expr → String) (org : String) (change : RuleChange) : Prop where
  org_eq : change.key.org = some org
  groups_eq : change.groups = none
  body_some : ∃ text, change.body debug = some text

/-- The policy is replayed as one change, which puts a rule of the org in. -/
def Lowers (S : SqlParser) (I : IterationOrder) (debug : Expr → String) (org name : String) (policy : String × PolicyValue)
    (change : RuleChange) : Prop :=
  persistedChanges S I org name policy.1 policy.2 = .ok [change] ∧ Upserts debug org change

theorem maskConfig_ok {column mask cfg}
    (h : maskConfig table column mask = .ok cfg) : cfg.table = table ∧ cfg.column = column ∧ cfg.groups = none := by
  cases mask with
  | literal literal =>
    cases h
    exact ⟨rfl, rfl, rfl⟩
  | typed maskType options =>
    obtain ⟨config, -, h⟩ := bind_ok_iff.mp h
    cases h
    exact ⟨rfl, rfl, rfl⟩

theorem lowers_of_declareMask {column mask}
    (h : declareMask S I org table column mask = .ok (change, rule)) (name) :
    Lowers S I debug org name (kindMask, rule) change := by
  obtain ⟨cfg, hc, h⟩ := bind_ok_iff.mp h
  obtain ⟨rules, hr, h⟩ := bind_ok_iff.mp h
  obtain ⟨columnMask, hl, rfl⟩ := buildMaskRules_singleton.mp (mapError_ok_iff.mp hr)
  cases h
  have hg : columnMask.groups = none := by
    rw [(lowerMask_ok hl).2.2.2, (maskConfig_ok hc).2.2]
    rfl
  exact ⟨persistedChanges_mask.mpr ⟨cfg, columnMask, rfl, hl, rfl⟩, ⟨rfl, hg, _, rfl⟩⟩

theorem lowers_of_declareRowFilter {predicate}
    (h : declareRowFilter S org table predicate = .ok (change, rule)) (name) :
    Lowers S I debug org name (kindRowFilter, rule) change := by
  obtain ⟨rules, hr, h⟩ := bind_ok_iff.mp h
  obtain ⟨rowFilter, hl, rfl⟩ := buildRowFilterRules_singleton.mp (mapError_ok_iff.mp hr)
  cases h
  have hg : rowFilter.groups = none := (lowerRowFilter_ok hl).2.2
  exact ⟨persistedChanges_rowFilter.mpr ⟨_, rowFilter, rfl, hl, rfl⟩, ⟨rfl, hg, _, rfl⟩⟩

/-- A removal takes away what the policy is replayed as. -/
structure Removes (debug : Expr → String) (made removed : RuleChange) : Prop where
  key_eq : removed.key = made.key
  groups_eq : removed.groups = none
  body_none : removed.body debug = none

theorem removes_of_removeMask {made}
    (hma : Lowers S I debug org name (kindMask, rule) made) (h : removeMask S org rule = .ok change) :
    Removes debug made change := by
  obtain ⟨cfg, mask, hcf, hl, hc⟩ := persistedChanges_mask.mp hma.1
  cases hc
  simp only [removeMask, bind_ok_iff, mapError_ok_iff, pure_ok_iff] at h
  obtain ⟨cfg', hc', table, ht, rfl⟩ := h
  obtain rfl : cfg = cfg' := ok.inj (hcf.symm.trans hc')
  obtain ⟨hm, hco, -, -⟩ := lowerMask_ok hl
  rw [ht] at hm
  cases hm
  exact ⟨by rw [RuleChange.key, RuleChange.key, hco], rfl, rfl⟩

theorem removes_of_removeRowFilter {made}
    (hm : Lowers S I debug org name (kindRowFilter, rule) made) (h : removeRowFilter S org rule = .ok change) :
    Removes debug made change := by
  obtain ⟨cfg, filter, hcf, hl, hc⟩ := persistedChanges_rowFilter.mp hm.1
  cases hc
  simp only [removeRowFilter, bind_ok_iff, mapError_ok_iff, pure_ok_iff] at h
  obtain ⟨cfg', hc', table, ht, rfl⟩ := h
  obtain rfl : cfg = cfg' := ok.inj (hcf.symm.trans hc')
  obtain ⟨hf, -, -⟩ := lowerRowFilter_ok hl
  rw [ht] at hf
  cases hf
  exact ⟨rfl, rfl, rfl⟩

/-! ## The replay -/

/-- The change that a stored policy is replayed as. -/
def changeOf (S : SqlParser) (I : IterationOrder) (st : PolicyStore) (org name : String) : Option RuleChange :=
  (st.getPolicy org name).bind fun policy =>
    match persistedChanges S I org name policy.1 policy.2 with
    | .ok [change] => some change
    | _ => none

def Stored (S : SqlParser) (I : IterationOrder) (debug : Expr → String) (st : PolicyStore) : Prop :=
  ∀ org name policy, st.getPolicy org name = some policy → ∃ change, Lowers S I debug org name policy change

variable {st : PolicyStore}

theorem changeOf_of_lowers {policy}
    (hg : st.getPolicy org name = some policy) (h : Lowers S I debug org name policy change) :
    changeOf S I st org name = some change := by
  rw [changeOf, hg, bind_some, h.1]

theorem Stored.upserts (h : Stored S I debug st)
    (hc : changeOf S I st org name = some change) : Upserts debug org change := by
  obtain ⟨policy, hg, -⟩ := bind_eq_some_iff.mp hc
  obtain ⟨change', hl⟩ := h org name policy hg
  rw [changeOf_of_lowers hg hl] at hc
  cases hc
  exact hl.2

/-- The changes in the order of the replay, with the org and the name of each policy. -/
def entries (S : SqlParser) (I : IterationOrder) (st : PolicyStore) : List (String × String × RuleChange) :=
  st.listOrgs.flatMap fun org =>
    (st.listPolicies org).filterMap fun name => (changeOf S I st org name).map fun change => (org, name, change)

theorem mem_listPolicies : name ∈ st.listPolicies org ↔ (st.getPolicy org name).isSome := by
  unfold listPolicies getPolicy
  cases st.orgs.lookup org with
  | none => simp
  | some policies => simp [AList.lookup_isSome, AList.mem_keys]

theorem mem_listOrgs (h : (st.getPolicy org name).isSome) : org ∈ st.listOrgs := by
  unfold getPolicy at h
  rw [listOrgs, mem_insertionSort, ← AList.mem_keys, ← AList.lookup_isSome]
  cases ho : st.orgs.lookup org with
  | none => simp [ho] at h
  | some policies => rfl

theorem mem_entries {e} : e ∈ entries S I st ↔ changeOf S I st e.1 e.2.1 = some e.2.2 := by
  obtain ⟨org, name, change⟩ := e
  simp only [entries, mem_flatMap, mem_filterMap, map_eq_some_iff]
  constructor
  · rintro ⟨org', -, name', -, change', hc, heq⟩
    cases heq
    exact hc
  · intro hc
    have hs : (st.getPolicy org name).isSome := by
      obtain ⟨policy, hg, -⟩ := bind_eq_some_iff.mp hc
      rw [hg]
      rfl
    exact ⟨org, mem_listOrgs hs, name, mem_listPolicies.mpr hs, change, hc, rfl⟩

/-- By org, then by name. -/
def Earlier (a b : String × String × RuleChange) : Prop := a.1 < b.1 ∨ a.1 = b.1 ∧ a.2.1 < b.2.1

theorem sorted_keys {V : Type} (m : HashMap V) : (m.keys.insertionSort (· ≤ ·)).Pairwise (· < ·) := by
  have hle := pairwise_insertionSort (· ≤ ·) m.keys
  have hne : (m.keys.insertionSort (· ≤ ·)).Nodup := (perm_insertionSort _ _).nodup_iff.mpr m.nodupKeys
  exact hle.imp₂ (fun _ _ hle hne => lt_of_le_of_ne hle hne) hne

theorem entries_sorted : (entries S I st).Pairwise Earlier := by
  refine pairwise_flatMap.mpr ⟨fun org _ => ?_, ?_⟩
  · have hn : (st.listPolicies org).Pairwise (· < ·) := by
      unfold listPolicies
      cases st.orgs.lookup org with
      | none => exact .nil
      | some policies => exact sorted_keys policies
    refine pairwise_filterMap.mpr (hn.imp fun hlt a ha b hb => ?_)
    obtain ⟨_, -, rfl⟩ := map_eq_some_iff.mp ha
    obtain ⟨_, -, rfl⟩ := map_eq_some_iff.mp hb
    exact .inr ⟨rfl, hlt⟩
  · refine (sorted_keys st.orgs).imp fun hlt a ha b hb => .inl ?_
    obtain ⟨_, -, ha⟩ := mem_filterMap.mp ha
    obtain ⟨_, -, hb⟩ := mem_filterMap.mp hb
    obtain ⟨_, -, rfl⟩ := map_eq_some_iff.mp ha
    obtain ⟨_, -, rfl⟩ := map_eq_some_iff.mp hb
    exact hlt

theorem earlier_asymm (a b) (hab : Earlier a b) : ¬ Earlier b a := by
  rintro (hlt | ⟨heq, hlt⟩) <;> rcases hab with hlt' | ⟨heq', hlt'⟩
  · exact lt_asymm hlt hlt'
  · exact hlt.ne heq'.symm
  · exact hlt'.ne heq.symm
  · exact lt_asymm hlt hlt'

theorem applyPersisted_ok (debug) (hp : ruleStore.storage.Plain)
    (hg : change.groups = none) (org name) :
    ∃ replayed, applyPersisted debug org name ruleStore change = .ok replayed ∧
      replayed.storage = (ruleStore.storage.applyChange debug change).1 := by
  obtain ⟨hok, hs⟩ := apply_of_plain debug hp hg
  unfold applyPersisted
  cases ha : ruleStore.apply debug change with
  | mk replayed result =>
    rw [ha] at hok hs
    cases hok
    exact ⟨replayed, rfl, hs⟩

theorem loadPolicy_ok (h : Stored S I debug st) (hp : ruleStore.storage.Plain) (org name) :
    ∃ replayed, loadPolicy S I debug st org ruleStore name = .ok replayed ∧ replayed.storage.Plain ∧
      replayed.storage = match changeOf S I st org name with
        | some change => (ruleStore.storage.applyChange debug change).1
        | none => ruleStore.storage := by
  unfold loadPolicy
  cases hg : st.getPolicy org name with
  | none =>
    have hn : changeOf S I st org name = none := by rw [changeOf, hg, bind_none]
    rw [hn]
    exact ⟨ruleStore, rfl, hp, rfl⟩
  | some policy =>
    obtain ⟨change, hl⟩ := h org name policy hg
    obtain ⟨replayed, ha, hs⟩ := applyPersisted_ok debug hp hl.2.groups_eq org name
    rw [changeOf_of_lowers hg hl]
    refine ⟨replayed, ?_, hs ▸ hp.applyChange debug hl.2.groups_eq, hs⟩
    dsimp only
    rw [hl.1]
    exact bind_ok_iff.mpr ⟨[change], rfl, by rw [foldlM_cons, ha]; rfl⟩

theorem loadPersistedPolicies_ok (h : Stored S I debug st) (hp : ruleStore.storage.Plain) :
    ∃ replayed, loadPersistedPolicies S I debug st ruleStore = .ok replayed ∧ replayed.storage.Plain ∧
      replayed.storage = (entries S I st).foldl (fun s e => (s.applyChange debug e.2.2).1) ruleStore.storage := by
  rw [entries, foldl_flatMap]
  refine foldlM_refines (fun ruleStore : InMemoryRuleStore => ruleStore.storage.Plain) (fun ruleStore org _ hp => ?_) hp
  rw [foldl_filterMap]
  refine foldlM_refines (fun ruleStore : InMemoryRuleStore => ruleStore.storage.Plain) (fun ruleStore name _ hp => ?_) hp
  obtain ⟨replayed, hl, hp', hs⟩ := loadPolicy_ok h hp org name
  refine ⟨replayed, hl, hp', ?_⟩
  rw [hs]
  cases changeOf S I st org name <;> rfl

/-! ## The last policy of a target -/

/-- The policy that stands last, by name, among those of its org on a target. -/
def LastOn (S : SqlParser) (I : IterationOrder) (st : PolicyStore) (k : RuleKey) (org name : String) (change : RuleChange) :
    Prop :=
  changeOf S I st org name = some change ∧ change.key = k ∧
    ∀ name' change', changeOf S I st org name' = some change' → change'.key = k → name' ≤ name

theorem getLast?_entries_iff (h : Stored S I debug st) {e} :
    ((entries S I st).filter fun e => e.2.2.key = k).getLast? = some e ↔ LastOn S I st k e.1 e.2.1 e.2.2 := by
  obtain ⟨org, name, change⟩ := e
  rw [KeyedList.getLast?_filter_eq_some_iff earlier_asymm entries_sorted]
  simp only [mem_entries, decide_eq_true_iff]
  constructor
  · rintro ⟨⟨hc, hk⟩, hlast⟩
    refine ⟨hc, hk, fun name' change' hc' hk' => ?_⟩
    rcases hlast (org, name', change') hc' hk' with heq | hlt | ⟨-, hlt⟩
    · cases heq
      exact le_refl name
    · exact absurd hlt (lt_irrefl org)
    · exact hlt.le
  · rintro ⟨hc, hk, hlast⟩
    refine ⟨⟨hc, hk⟩, ?_⟩
    rintro ⟨org', name', change'⟩ hc' hk'
    -- The key of a rule has its org, so both policies are of one org.
    have ho : some org' = some org := by
      rw [← (h.upserts hc').org_eq, ← (h.upserts hc).org_eq, hk, hk']
    cases ho
    rcases (hlast name' change' hc' hk').eq_or_lt with rfl | hlt
    · have hs : change' = change := some.inj (hc'.symm.trans hc)
      exact .inl (by rw [hs])
    · exact .inr (.inr ⟨rfl, hlt⟩)

theorem bodyAt_entries (h : Stored S I debug st) {text} :
    bodyAt debug ((entries S I st).foldl (fun s e => (s.applyChange debug e.2.2).1) .empty) k = some text ↔
      ∃ org name change, LastOn S I st k org name change ∧ change.body debug = some text := by
  have hf := KeyedList.lookup_foldl (bodyAt debug) (fun s e => (s.applyChange debug e.2.2).1)
    (fun e : String × String × RuleChange => e.2.2.key) (fun e => e.2.2.body debug)
    (fun s e k => bodyAt_applyChange e.2.2 k) k (entries S I st) .empty
  have he : bodyAt debug .empty k = none := by cases k <;> rfl
  rw [hf, he]
  constructor
  · intro hb
    cases hlast : ((entries S I st).filter fun e => e.2.2.key = k).getLast? with
    | none => rw [hlast] at hb; cases hb
    | some e =>
      rw [hlast] at hb
      exact ⟨e.1, e.2.1, e.2.2, (getLast?_entries_iff h).mp hlast, hb⟩
  · rintro ⟨org, name, change, hlast, hb⟩
    have hg : ((entries S I st).filter fun e => e.2.2.key = k).getLast? = some (org, name, change) :=
      (getLast?_entries_iff h).mpr hlast
    rw [hg]
    exact hb

theorem LastOn.unique (h : Stored S I debug st) {org' name' change'}
    (hlast : LastOn S I st k org name change) (hlast' : LastOn S I st k org' name' change') :
    org = org' ∧ name = name' ∧ change = change' := by
  have hg : some (org, name, change) = some (org', name', change') :=
    ((getLast?_entries_iff h).mpr hlast).symm.trans ((getLast?_entries_iff h).mpr hlast')
  simpa using hg

theorem LastOn.exists_body_iff (h : Stored S I debug st) {text} (hlast : LastOn S I st k org name change) :
    (∃ o n c, LastOn S I st k o n c ∧ c.body debug = some text) ↔ change.body debug = some text := by
  constructor
  · rintro ⟨o, n, c, hc, hb⟩
    obtain ⟨-, -, rfl⟩ := hlast.unique h hc
    exact hb
  · intro hb
    exact ⟨org, name, change, hlast, hb⟩

theorem exists_lastOn (h : Stored S I debug st) (hc : changeOf S I st org name = some change) :
    ∃ name' change', LastOn S I st change.key org name' change' := by
  have hm : (org, name, change) ∈ (entries S I st).filter fun e => e.2.2.key = change.key :=
    mem_filter.mpr ⟨mem_entries.mpr hc, decide_eq_true rfl⟩
  obtain ⟨⟨org', name', change'⟩, hlast⟩ : ∃ e, ((entries S I st).filter fun e => e.2.2.key = change.key).getLast? = some e :=
    ⟨_, getLast?_eq_some_getLast (ne_nil_of_mem hm)⟩
  rw [getLast?_entries_iff h] at hlast
  have ho : some org' = some org := by
    rw [← (h.upserts hlast.1).org_eq, ← (h.upserts hc).org_eq, hlast.2.1]
  cases ho
  exact ⟨name', change', hlast⟩

/-! ## One write -/

section Write

variable {st' : PolicyStore} {org name : String} {new : Option RuleChange}

variable {change : RuleChange}

theorem changeOf_putPolicy {kind rule} (h : Lowers S I debug org name (kind, rule) change) (org' name') :
    changeOf S I (st.putPolicy org name kind rule) org' name' =
      if org' = org ∧ name' = name then some change else changeOf S I st org' name' := by
  have hg := st.getPolicy_putPolicy org name kind rule org' name'
  split_ifs at hg ⊢ with hs
  · obtain ⟨rfl, rfl⟩ := hs
    exact changeOf_of_lowers hg h
  · rw [changeOf, hg, changeOf]

theorem changeOf_deletePolicy (org' name') : changeOf S I (st.deletePolicy org name) org' name' =
      if org' = org ∧ name' = name then none else changeOf S I st org' name' := by
  have hg := st.getPolicy_deletePolicy org name org' name'
  split_ifs at hg ⊢ with hsame
  · rw [changeOf, hg, bind_none]
  · rw [changeOf, hg, changeOf]

theorem lastOn_of_write {key k} (hk : k ≠ key)
    (hw : ∀ o n, changeOf S I st' o n = if o = org ∧ n = name then new else changeOf S I st o n)
    (hn : ∀ change, new = some change → change.key = key)
    (ho : ∀ change, changeOf S I st org name = some change → change.key = key) {o n} :
    LastOn S I st' k o n change ↔ LastOn S I st k o n change := by
  have hs : ∀ n c, c.key = k → (changeOf S I st' o n = some c ↔ changeOf S I st o n = some c) := by
    intro n c hc
    rw [hw]
    split_ifs with hat
    · obtain ⟨rfl, rfl⟩ := hat
      exact ⟨fun h => absurd (hc.symm.trans (hn c h)) hk, fun h => absurd (hc.symm.trans (ho c h)) hk⟩
    · exact Iff.rfl
  constructor
  · rintro ⟨hch, hke, hm⟩
    exact ⟨(hs n change hke).mp hch, hke, fun n' c' hc' hk' => hm n' c' ((hs n' c' hk').mpr hc') hk'⟩
  · rintro ⟨hch, hke, hm⟩
    exact ⟨(hs n change hke).mpr hch, hke, fun n' c' hc' hk' => hm n' c' ((hs n' c' hk').mp hc') hk'⟩

/-- After a `CREATE` the target has the created rule, unless a policy further down the names has another one. -/
theorem create_agrees_iff (hs : Stored S I debug st) (hs' : Stored S I debug st')
    (hf : changeOf S I st org name = none)
    (hw : ∀ o n, changeOf S I st' o n = if o = org ∧ n = name then some change else changeOf S I st o n) :
    (∀ text, change.body debug = some text ↔ ∃ o n c, LastOn S I st' change.key o n c ∧ c.body debug = some text) ↔
      ∀ n c, LastOn S I st change.key org n c → n < name ∨ c.body debug = change.body debug := by
  have hcr : changeOf S I st' org name = some change := by rw [hw, if_pos ⟨rfl, rfl⟩]
  have hk : ∀ {n}, n ≠ name → changeOf S I st' org n = changeOf S I st org n := by
    intro n hn
    rw [hw, if_neg fun h => hn h.2]
  have hne : ∀ {n c}, changeOf S I st org n = some c → n ≠ name := by
    rintro n c hc rfl
    rw [hf] at hc
    cases hc
  obtain ⟨m, last, hlast⟩ := exists_lastOn hs' hcr
  have hb : (∀ text, change.body debug = some text ↔
      ∃ o n c, LastOn S I st' change.key o n c ∧ c.body debug = some text) ↔ last.body debug = change.body debug := by
    simp only [hlast.exists_body_iff hs']
    constructor
    · intro ha
      exact (ext ha).symm
    · intro heq text
      rw [heq]
  rw [hb]
  by_cases hm : m = name
  · subst hm
    obtain rfl : last = change := some.inj (hlast.1.symm.trans hcr)
    refine iff_of_true rfl fun n c hc => .inl ?_
    exact lt_of_le_of_ne (hlast.2.2 n c ((hk (hne hc.1)).trans hc.1) hc.2.1) (hne hc.1)
  · have ho : LastOn S I st change.key org m last := by
      refine ⟨(hk hm).symm.trans hlast.1, hlast.2.1, fun n c hc hke => ?_⟩
      exact hlast.2.2 n c ((hk (hne hc)).trans hc) hke
    have hlt : name < m := lt_of_le_of_ne (hlast.2.2 name change hcr rfl) (Ne.symm hm)
    constructor
    · intro heq n c hc
      obtain ⟨-, -, rfl⟩ := ho.unique hs hc
      exact .inr heq
    · intro hcl
      exact (hcl m last ho).resolve_left (lt_asymm hlt)

/-- After a `DROP` the target has no rule, unless another policy is on it. -/
theorem drop_agrees_iff {made} (hs : Stored S I debug st) (hs' : Stored S I debug st')
    (hm : changeOf S I st org name = some made) (hr : Removes debug made change)
    (hw : ∀ o n, changeOf S I st' o n = if o = org ∧ n = name then none else changeOf S I st o n) :
    (∀ text, change.body debug = some text ↔ ∃ o n c, LastOn S I st' change.key o n c ∧ c.body debug = some text) ↔
      ∀ n c, changeOf S I st org n = some c → c.key = change.key → n = name := by
  constructor
  · intro ha n c hc hke
    by_contra hn
    have hk : changeOf S I st' org n = some c := by rw [hw, if_neg fun h => hn h.2, hc]
    obtain ⟨m, last, hlast⟩ := exists_lastOn hs' hk
    obtain ⟨text, ht⟩ := (hs'.upserts hlast.1).body_some
    have hb := (ha text).mpr ⟨org, m, last, hke ▸ hlast, ht⟩
    rw [hr.body_none] at hb
    cases hb
  · intro hcl text
    rw [hr.body_none]
    refine iff_of_false (by simp) ?_
    rintro ⟨o, n, c, hlast, -⟩
    have ho : some o = some org := by
      rw [← (hs'.upserts hlast.1).org_eq, ← (hs.upserts hm).org_eq, hlast.2.1, hr.key_eq]
    cases ho
    have hc := hlast.1
    rw [hw] at hc
    split_ifs at hc with hat
    exact hat ⟨rfl, hcl n c hc hlast.2.1⟩

end Write

/-! ## Restarts -/

/-- A statement that succeeds, of an org. -/
def step (S : SqlParser) (I : IterationOrder) (debug : Expr → String) (admin : StorePolicyAdmin) (stmt : String × PolicyDdl) :
    Option StorePolicyAdmin :=
  match apply S I debug .nothing admin stmt.1 stmt.2 with
  | (admin', .ok _) => some admin'
  | (_, .error _) => none

/-- The stored policies are replayed into an empty rule store, and give the rules that are live. -/
def RestartKeeps (S : SqlParser) (I : IterationOrder) (debug : Expr → String) (admin : StorePolicyAdmin) : Prop :=
  ∃ replayed, loadPersistedPolicies S I debug admin.store .empty = .ok replayed ∧
    ∀ r, r ∈ admin.ruleStore.storage.printed debug ↔ r ∈ replayed.storage.printed debug

/-- What keeps a statement from setting the live rules apart from the stored policies. Of the policies of the
org on the created rule's target, the last by name comes before the new one or has the same rule. The dropped
policy is the org's only one on its target. -/
def Clean (S : SqlParser) (I : IterationOrder) (debug : Expr → String) (st : PolicyStore) (org : String) : Planned → Prop
  | .noOp => True
  | .commit change (.put name _ _) =>
    ∀ n c, LastOn S I st change.key org n c → n < name ∨ c.body debug = change.body debug
  | .commit change (.delete name) =>
    ∀ n c, changeOf S I st org n = some c → c.key = change.key → n = name

/-- What statements leave behind, as long as a restart keeps it. -/
structure Settled (S : SqlParser) (I : IterationOrder) (debug : Expr → String) (admin : StorePolicyAdmin) : Prop where
  stored : Stored S I debug admin.store
  plain : admin.ruleStore.storage.Plain
  agrees : ∀ k text, admin.ruleStore.storage.bodyAt debug k = some text ↔
    ∃ org name change, LastOn S I admin.store k org name change ∧ change.body debug = some text

theorem restartKeeps_iff (hs : Stored S I debug admin.store) (hp : admin.ruleStore.storage.Plain) :
    RestartKeeps S I debug admin ↔ ∀ k text, admin.ruleStore.storage.bodyAt debug k = some text ↔
      ∃ org name change, LastOn S I admin.store k org name change ∧ change.body debug = some text := by
  have he : empty.storage.Plain := plain_empty
  obtain ⟨replayed, hl, hp', hst⟩ := loadPersistedPolicies_ok hs he
  have hk : RestartKeeps S I debug admin ↔ ∀ k, admin.ruleStore.storage.bodyAt debug k = replayed.storage.bodyAt debug k := by
    rw [← hp.printed_congr_iff hp', RestartKeeps, hl]
    simp
  rw [hk, hst]
  refine forall_congr' fun k => Option.ext_iff.trans (forall_congr' fun text => ?_)
  exact iff_congr Iff.rfl (bodyAt_entries hs)

theorem step_cases {admin' ddl} (h : step S I debug admin (org, ddl) = some admin') :
    (plan S I .nothing admin.store org ddl = .ok .noOp ∧ admin' = admin) ∨
      ∃ change write, plan S I .nothing admin.store org ddl = .ok (.commit change write) ∧
        admin' = ⟨write.run org admin.store, (admin.ruleStore.apply debug change).1⟩ := by
  unfold step apply at h
  cases hplan : plan S I .nothing admin.store org ddl with
  | error e => rw [hplan] at h; cases h
  | ok planned =>
    rw [hplan] at h
    cases planned with
    | noOp => cases h; exact .inl ⟨rfl, rfl⟩
    | commit change write =>
      right
      unfold commit at h
      cases ha : admin.ruleStore.apply debug change with
      | mk ruleStore result =>
        simp only [ha] at h
        cases result with
        | error e => cases h
        | ok _ =>
          cases h
          exact ⟨change, write, rfl, by rw [ha]⟩

theorem Commits.create_or_drop {write} (h : Commits S I st org change write) (hs : Stored S I debug st) :
    (∃ name kind rule, write = .put name kind rule ∧ st.getPolicy org name = none ∧
      Lowers S I debug org name (kind, rule) change) ∨
    ∃ name policy made, write = .delete name ∧ st.getPolicy org name = some policy ∧
      Lowers S I debug org name policy made ∧ Removes debug made change := by
  cases h with
  | @createMask name table column mask change rule hf hd =>
    exact .inl ⟨name, kindMask, rule, rfl, hf, lowers_of_declareMask hd name⟩
  | @createRowFilter name table predicate change rule hf hd =>
    exact .inl ⟨name, kindRowFilter, rule, rfl, hf, lowers_of_declareRowFilter hd name⟩
  | @dropMask name rule change hg hr =>
    obtain ⟨made, hm⟩ := hs org name (kindMask, rule) hg
    exact .inr ⟨name, _, made, rfl, hg, hm, removes_of_removeMask hm hr⟩
  | @dropRowFilter name rule change hg hr =>
    obtain ⟨made, hm⟩ := hs org name (kindRowFilter, rule) hg
    exact .inr ⟨name, _, made, rfl, hg, hm, removes_of_removeRowFilter hm hr⟩

theorem Stored.putPolicy (hs : Stored S I debug st) {kind}
    (hl : Lowers S I debug org name (kind, rule) change) : Stored S I debug (st.putPolicy org name kind rule) := by
  intro org' name' policy hg
  rw [st.getPolicy_putPolicy] at hg
  split_ifs at hg with hat
  · cases hg
    obtain ⟨rfl, rfl⟩ := hat
    exact ⟨change, hl⟩
  · exact hs org' name' policy hg

theorem Stored.deletePolicy (hs : Stored S I debug st) (org name) :
    Stored S I debug (st.deletePolicy org name) := by
  intro org' name' policy hg
  rw [st.getPolicy_deletePolicy] at hg
  split_ifs at hg with hat
  exact hs org' name' policy hg

/-- What a commit does to the stored policies: the other targets keep their last policy, and the statement is clean
exactly when its own target's last policy has the rule that is live. -/
theorem Commits.effect {write} (h : Commits S I st org change write) (hs : Stored S I debug st) :
    change.groups = none ∧ Stored S I debug (write.run org st) ∧
    (∀ k, k ≠ change.key → ∀ o n c, LastOn S I (write.run org st) k o n c ↔ LastOn S I st k o n c) ∧
    ((∀ text, change.body debug = some text ↔
        ∃ o n c, LastOn S I (write.run org st) change.key o n c ∧ c.body debug = some text) ↔
      Clean S I debug st org (.commit change write)) := by
  rcases h.create_or_drop hs with ⟨name, kind, rule, rfl, hf, hl⟩ | ⟨name, policy, made, rfl, hg, hm, hr⟩
  · have hs' := hs.putPolicy hl
    have hn : changeOf S I st org name = none := by rw [changeOf, hf, bind_none]
    refine ⟨hl.2.groups_eq, hs', fun k hk o n c => ?_, ?_⟩
    · refine lastOn_of_write hk (changeOf_putPolicy hl) ?_ ?_
      · intro c hc
        rw [some.inj hc]
      · intro c hc
        rw [hn] at hc
        cases hc
    · exact create_agrees_iff hs hs' hn (changeOf_putPolicy hl)
  · have hs' := hs.deletePolicy org name
    have hch : changeOf S I st org name = some made := changeOf_of_lowers hg hm
    refine ⟨hr.groups_eq, hs', fun k hk o n c => ?_, ?_⟩
    · refine lastOn_of_write hk changeOf_deletePolicy ?_ ?_
      · intro c hc
        cases hc
      · intro c hc
        rw [hch] at hc
        cases hc
        exact hr.key_eq.symm
    · exact drop_agrees_iff hs hs' hch hr changeOf_deletePolicy

/-- One statement: after it a restart keeps the rules exactly when it is clean. -/
theorem Settled.step_iff {admin' ddl}
    (h : Settled S I debug admin) (hstep : step S I debug admin (org, ddl) = some admin') :
    Stored S I debug admin'.store ∧ admin'.ruleStore.storage.Plain ∧
      (RestartKeeps S I debug admin' ↔
        ∀ planned, plan S I .nothing admin.store org ddl = .ok planned → Clean S I debug admin.store org planned) := by
  rcases step_cases hstep with ⟨hplan, rfl⟩ | ⟨change, write, hplan, rfl⟩
  · refine ⟨h.stored, h.plain, iff_of_true ((restartKeeps_iff h.stored h.plain).mpr h.agrees) ?_⟩
    intro planned heq
    rw [hplan] at heq
    cases heq
    trivial
  · obtain ⟨hg, hs', ho, ht⟩ := (commits_of_plan hplan).effect h.stored
    obtain ⟨-, hs⟩ := apply_of_plain debug h.plain hg
    have hp' : (admin.ruleStore.apply debug change).1.storage.Plain := hs ▸ h.plain.applyChange debug hg
    refine ⟨hs', hp', ?_⟩
    rw [restartKeeps_iff hs' hp']
    simp only [hs, bodyAt_applyChange, hplan, ok.injEq, forall_eq']
    rw [← ht]
    constructor
    · intro ha text
      simpa using ha change.key text
    · intro hat k text
      by_cases hk : k = change.key
      · subst hk
        simpa using hat text
      · rw [if_neg hk, h.agrees]
        simp only [ho k hk]

theorem settled_fresh : Settled S I debug freshAdmin := by
  have hg : ∀ org name, freshAdmin.store.getPolicy org name = none := fun _ _ => rfl
  refine ⟨fun org name policy h => ?_, plain_empty, fun k text => ?_⟩
  · rw [hg] at h
    cases h
  · have hb : bodyAt debug freshAdmin.ruleStore.storage k = none := by cases k <;> rfl
    rw [hb]
    refine iff_of_false (by simp) ?_
    rintro ⟨org, name, change, ⟨hc, -⟩, -⟩
    cases hc

/-- **Which statements a restart keeps.** Along every run of successful statements, of any orgs, from empty stores:
after each statement the replay of the stored policies gives the live rules, if and only if each statement is clean. -/
theorem restart_keeps_rules_iff (run : List (String × PolicyDdl)) :
    Runs.Along (step S I debug) (fun _ _ admin' => RestartKeeps S I debug admin') freshAdmin run ↔
      Runs.Along (step S I debug)
        (fun admin stmt _ => ∀ planned, plan S I .nothing admin.store stmt.1 stmt.2 = .ok planned →
          Clean S I debug admin.store stmt.1 planned) freshAdmin run := by
  refine Runs.along_congr (Settled S I debug) ?_ ?_ run settled_fresh
  · intro admin stmt admin' hi hstep hk
    obtain ⟨hs, hp, -⟩ := hi.step_iff hstep
    exact ⟨hs, hp, (restartKeeps_iff hs hp).mp hk⟩
  · intro admin stmt admin' hi hstep
    exact (hi.step_iff hstep).2.2

/-- The column is masked under two names and one of them is dropped: it is live unmasked, and masked after a
restart. -/
theorem dropped_mask_returns_after_restart :
    ∃ admin₁ admin₂ admin₃,
      step .bareNames .asWritten debugLiteral freshAdmin
        ("acme", .createMask "m1" "users" "email" (.literal "***") false) = some admin₁ ∧
      step .bareNames .asWritten debugLiteral admin₁
        ("acme", .createMask "m2" "users" "email" (.literal "###") false) = some admin₂ ∧
      step .bareNames .asWritten debugLiteral admin₂ ("acme", .dropMask "m2" false) = some admin₃ ∧
      admin₃.ruleStore.storage.printed debugLiteral = [] ∧
      ∃ replayed, loadPersistedPolicies .bareNames .asWritten debugLiteral admin₃.store .empty = .ok replayed ∧
        replayed.storage.printed debugLiteral = [⟨.mask (.bare "users") "email" (some "acme"), none, "***"⟩] :=
  ⟨_, _, _, rfl, rfl, rfl, rfl, _, rfl, rfl⟩

end PolicyAdmin

end Dataglot
