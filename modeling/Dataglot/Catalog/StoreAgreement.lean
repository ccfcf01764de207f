/-
The two embedded stores side by side, from empty stores through one sequence of operations.

The stores part over what a map remembers and a table does not, an org whose last object is
gone and a source config that is `null` and not absent; over the order of grants; and over
documents that `serde_json` writes and does not read.
-/
import Dataglot.Library.Runs
import Dataglot.Catalog.StoreSimulation

namespace Dataglot

open RedbMetaStore TableFamily OrderedTable Except Option List

namespace EmbeddedMetaStore

/-! ## Reads -/

/-- What a read returns; a `BTreeSet` of grants in its order. -/
def State.answer (s : State) : (r : Read) → r.Answer
  | .listGrants org => inOrder derivedOrder (s.field .grants org)
  | .listSourceConfigs org => s.read (.listSourceConfigs org)
  | .listBindings org => s.read (.listBindings org)
  | .getSecret org name => s.read (.getSecret org name)
  | .listSecretNames org => s.read (.listSecretNames org)
  | .getUser org name => s.read (.getUser org name)
  | .findUser name => s.read (.findUser name)
  | .listUsers org => s.read (.listUsers org)
  | .listRoles org => s.read (.listRoles org)
  | .getPolicy org name => s.read (.getPolicy org name)
  | .listPolicies org => s.read (.listPolicies org)
  | .getDerivedProduct org name => s.read (.getDerivedProduct org name)
  | .listDerivedProducts org => s.read (.listDerivedProducts org)
  | .listRolesForUser org user => s.read (.listRolesForUser org user)
  | .listRoleMembers org role => s.read (.listRoleMembers org role)
  | .listOrgs => s.read .listOrgs

section Reads

variable {s : State} {db : Tables} {org : String}

theorem mem_getD_empty {members : Option (Finset String)} {user} :
    user ∈ members.getD ∅ ↔ ∃ m, members = some m ∧ user ∈ m := by
  cases members <;> simp

theorem lookup_orgs_of_stored {t name v} (h : (s.org org).Stored t name v) :
    s.orgs.lookup org = some (s.org org) := by
  unfold State.org at h ⊢
  cases hl : s.orgs.lookup org with
  | none =>
    rw [hl] at h
    exact absurd h (OrgState.not_stored_default t name v)
  | some o => rfl

theorem readOption_getD_iff {config : Option Json} : (config.getD .null).readOption = config ↔ config ≠ some .null := by
  cases config with
  | none => simp [Json.readOption]
  | some v => cases v <;> simp [Json.readOption]

variable (h : Holds s db)
include h

theorem listOrg_secrets : listOrg db .secrets org = s.listed .secrets org :=
  scan_eq_iter (m := s.field .secrets org) fun name =>
    (h.get_map fieldOf_secrets name).trans map_id'

theorem listOrg_users : listOrg db .users org = s.listed .users org :=
  scan_eq_iter (m := s.field .users org) fun name =>
    (h.get_map fieldOf_users name).trans map_id'

theorem listOrg_policies : listOrg db .policies org = s.listed .policies org :=
  scan_eq_iter (m := s.field .policies org) fun name =>
    (h.get_map fieldOf_policies name).trans map_id'

theorem listOrg_products : listOrg db .products org = s.listed .derivedProducts org :=
  scan_eq_iter (m := s.field .derivedProducts org) fun name =>
    (h.get_map fieldOf_products name).trans map_id'

theorem mem_listOrg {t e} : e ∈ listOrg db t org ↔ (s.org org).Stored t e.1 e.2 := mem_scan.trans (h t org e.1 e.2)

theorem listRoles_agrees : (listOrg db .roles org).map Prod.fst = (s.field .roles org).sort (· ≤ ·) := by
  refine eq_of_increasing id ?_ (Finset.sortedLT_sort _).pairwise fun name => ?_
  · exact List.pairwise_map.mpr (scan_increasing (db .roles) org)
  · rw [Finset.mem_sort, List.mem_map]
    constructor
    · rintro ⟨e, he, rfl⟩
      exact ((mem_listOrg h).mp he).1
    · intro hm
      exact ⟨(name, 1), (mem_listOrg h).mpr ⟨hm, rfl⟩, rfl⟩

theorem listGrants_eq : (listOrg db .grants org).map Prod.snd = inOrder keyOrder (s.field .grants org) := by
  refine eq_of_increasing keyOrder ?_ (inOrder_increasing _ _) fun grant => ?_
  · rw [List.pairwise_map]
    refine (scan_increasing (db .grants) org).imp_of_mem fun {e e'} he he' hlt => ?_
    have hk : grantKey e.2 = e.1 := ((mem_listOrg h).mp he).2
    have hk' : grantKey e'.2 = e'.1 := ((mem_listOrg h).mp he').2
    exact hk.trans_lt (hlt.trans_eq hk'.symm)
  · rw [mem_inOrder, List.mem_map]
    constructor
    · rintro ⟨e, he, rfl⟩
      exact ((mem_listOrg h).mp he).1
    · intro hm
      exact ⟨(grantKey grant, grant), (mem_listOrg h).mpr ⟨hm, rfl⟩, rfl⟩

theorem listRolesForUser_agrees (user) :
    ((listOrg db .roleMembers org).filterMap fun (key, _) => if (ofLex key).2 = user then some (ofLex key).1 else none) =
      ((s.listed .roleMembers org).filter fun (_, members) => user ∈ members).map Prod.fst := by
  refine eq_of_increasing id ?_ ?_ fun role => ?_
  · refine List.Pairwise.filterMap _ (fun e e' hlt role hr role' hr' => ?_) (scan_increasing (db .roleMembers) org)
    dsimp only at hr hr'
    split_ifs at hr hr' with hu hu'
    cases hr
    cases hr'
    exact fst_lt_of_toLex_lt hlt (hu.trans hu'.symm)
  · exact List.pairwise_map.mpr ((iter_increasing (s.field .roleMembers org)).filter _)
  · rw [List.mem_filterMap, List.mem_map]
    constructor
    · rintro ⟨e, he, hp⟩
      dsimp only at hp
      split_ifs at hp with hu
      cases hp
      obtain ⟨members, hl, hm⟩ := mem_getD_empty.mp ((mem_listOrg h).mp he).1
      exact ⟨(_, members), List.mem_filter.mpr ⟨mem_iter.mpr hl, decide_eq_true (hu ▸ hm)⟩, rfl⟩
    · rintro ⟨⟨role, members⟩, he, rfl⟩
      obtain ⟨hli, hm⟩ := List.mem_filter.mp he
      have hs : user ∈ ((s.field .roleMembers org).lookup role).getD ∅ :=
        mem_getD_empty.mpr ⟨members, mem_iter.mp hli, of_decide_eq_true hm⟩
      exact ⟨(toLex (role, user), 1), (mem_listOrg h).mpr ⟨hs, rfl⟩, if_pos rfl⟩

theorem listRoleMembers_agrees (role) :
    ((listOrg db .roleMembers org).filterMap fun (key, _) => if (ofLex key).1 = role then some (ofLex key).2 else none) =
      ((s.find .roleMembers org role).getD ∅).sort (· ≤ ·) := by
  refine eq_of_increasing id ?_ (Finset.sortedLT_sort _).pairwise fun user => ?_
  · refine Pairwise.filterMap _ (fun e e' hlt user hu user' hu' => ?_) (scan_increasing (db .roleMembers) org)
    dsimp only at hu hu'
    split_ifs at hu hu' with hr hr'
    cases hu
    cases hu'
    exact lt_of_toLex_lt hlt (hr.trans hr'.symm)
  · rw [Finset.mem_sort, mem_filterMap]
    constructor
    · rintro ⟨e, he, hp⟩
      dsimp only at hp
      split_ifs at hp with hr
      cases hp
      exact hr ▸ ((mem_listOrg h).mp he).1
    · intro hm
      exact ⟨(toLex (role, user), 1), (mem_listOrg h).mpr ⟨hm, rfl⟩, if_pos rfl⟩

theorem findUser_agrees (name) : findUser db name = s.read (.findUser name) := by
  unfold findUser
  dsimp only [State.read]
  rw [← head?_filterMap, ← head?_filterMap]
  congr 1
  refine eq_of_increasing Prod.fst ?_ ?_ fun found => ?_
  · refine filterMap_iter_increasing Prod.fst _ fun e e' hlt u hu u' hu' => ?_
    split_ifs at hu hu' with hname hname'
    cases hu
    cases hu'
    have ho : (ofLex e.1).1 < (ofLex e'.1).1 := fst_lt_of_toLex_lt hlt (hname.trans hname'.symm)
    exact ho
  · refine Pairwise.filterMap _ (fun org org' hlt u hu u' hu' => ?_) (Finset.sortedLT_sort s.orgs.keys).pairwise
    obtain ⟨_, -, rfl⟩ := map_eq_some_iff.mp hu
    obtain ⟨_, -, rfl⟩ := map_eq_some_iff.mp hu'
    exact hlt
  · rw [mem_filterMap_iter, mem_filterMap]
    constructor
    · rintro ⟨key, user, hl, hp⟩
      split_ifs at hp with hname
      cases hp
      have hg : db.get (cell .users (ofLex key).1 name) = some user := hname ▸ hl
      have hs := (h .users _ name user).mp hg
      refine ⟨(ofLex key).1, ?_, ?_⟩
      · rw [State.listOrgs, Finset.mem_sort]
        exact Finmap.mem_keys.mpr (Finmap.mem_of_lookup_eq_some (lookup_orgs_of_stored hs))
      · have hfi : s.find .users (ofLex key).1 name = some user := hs
        rw [State.getUser, hfi]
        rfl
    · rintro ⟨org, -, hf⟩
      obtain ⟨_, hus, rfl⟩ := map_eq_some_iff.mp hf
      obtain ⟨user, hfi, rfl⟩ := map_eq_some_iff.mp hus
      exact ⟨toLex (org, name), user, (h .users org name user).mpr hfi, if_pos rfl⟩

theorem mem_orgs : org ∈ orgs db ↔ (s.org org).Owns := by
  have ha : ∀ t, t ∈ ([.entries, .secrets, .users, .roles, .policies, .grants, .products,
      .roleMembers] : List TableDefinition) := by
    intro t
    cases t <;> simp
  unfold orgs
  rw [List.mem_toFinset, List.mem_flatMap]
  constructor
  · rintro ⟨t, -, ht⟩
    obtain ⟨e, he, rfl⟩ := List.mem_map.mp ht
    exact ⟨t, (ofLex e.1).2, e.2, (h t _ _ _).mp (mem_iter.mp he)⟩
  · rintro ⟨t, name, v, hs⟩
    exact ⟨t, ha t, List.mem_map.mpr ⟨(toLex (org, name), v), mem_iter.mpr ((h t org name v).mpr hs), rfl⟩⟩

theorem listOrgs_agrees_iff : s.listOrgs = (orgs db).sort (· ≤ ·) ↔ ∀ org o, s.orgs.lookup org = some o → o.Owns := by
  have hm : ∀ org, org ∈ s.orgs.keys ↔ ∃ o, s.orgs.lookup org = some o := fun org =>
    Finmap.mem_keys.trans Finmap.mem_iff
  constructor
  · intro hsa org o hl
    have hk : s.orgs.keys = orgs db := State.eq_of_sort_eq hsa
    have ho : (s.org org).Owns := (mem_orgs h).mp (hk ▸ (hm org).mpr ⟨o, hl⟩)
    unfold State.org at ho
    rw [hl] at ho
    exact ho
  · intro ho
    unfold State.listOrgs
    congr 1
    ext org
    rw [hm, mem_orgs h]
    constructor
    · rintro ⟨o, hl⟩
      unfold State.org
      rw [hl]
      exact ho org o hl
    · rintro ⟨t, name, v, hs⟩
      exact ⟨_, lookup_orgs_of_stored hs⟩

theorem listEntries_ok (hr : ∀ name e, s.find .entries org name = some e → e.ReadsBack) :
    ∃ entries, listEntries db org = .ok entries ∧ ∀ name, entries.lookup name =
      (s.find .entries org name).map fun e => ⟨e.binding, e.document.sourceConfig.readOption⟩ := by
  refine ⟨(listOrg db .entries org).map fun e => (e.1, ⟨e.2.binding, e.2.sourceConfig.readOption⟩), ?_, fun name => ?_⟩
  · refine mapM_eq_ok_map fun e he => ?_
    obtain ⟨entry, hf, hd⟩ := (mem_listOrg h).mp he
    have hde := de_of_withinLimit (hr e.1 entry hf)
    rw [hd] at hde
    dsimp only
    rw [hde]
    rfl
  · rw [lookup_map_snd fun doc : EntryDocument => (⟨doc.binding, doc.sourceConfig.readOption⟩ : StoredEntry)]
    have hl : (listOrg db .entries org).lookup name = _ := (lookup_scan (db .entries) org name).trans
      (h.get_map fieldOf_entries name)
    rw [hl, Option.map_map]
    rfl

theorem readsBack_of_listEntries {entries}
    (hok : listEntries db org = .ok entries) {name e} (hf : s.find .entries org name = some e) : e.ReadsBack := by
  by_contra hd
  have hl : (name, e.document) ∈ listOrg db .entries org := (mem_listOrg h).mpr ⟨e, hf, rfl⟩
  obtain ⟨_, -, hr⟩ := exists_mem_of_mapM_ok hok hl
  dsimp only at hr
  rw [de_of_not_withinLimit hd] at hr
  cases hr

theorem listBindings_agrees_iff : .ok (s.answer (.listBindings org)) = RedbMetaStore.read db (.listBindings org) ↔
      ∀ name e, s.find .entries org name = some e → e.ReadsBack := by
  constructor
  · intro hs name e hf
    cases hli : listEntries db org with
    | error err =>
      rw [RedbMetaStore.read, hli] at hs
      cases hs
    | ok entries => exact readsBack_of_listEntries h hli hf
  · intro hr
    obtain ⟨entries, hok, hl⟩ := listEntries_ok h hr
    rw [RedbMetaStore.read, hok]
    refine congrArg ok (funext fun name => ?_)
    dsimp only
    rw [hl, Option.map_map]
    rfl

theorem listSourceConfigs_agrees_iff :
    .ok (s.answer (.listSourceConfigs org)) = RedbMetaStore.read db (.listSourceConfigs org) ↔
      ∀ name e, s.find .entries org name = some e → e.ReadsBack ∧ e.sourceConfig ≠ some .null := by
  constructor
  · intro hs
    cases hli : listEntries db org with
    | error err =>
      rw [RedbMetaStore.read, hli] at hs
      cases hs
    | ok entries =>
      have hr (name : String) (e : Entry) (hf : s.find .entries org name = some e) : e.ReadsBack :=
        readsBack_of_listEntries h hli hf
      obtain ⟨_, hok, hl⟩ := listEntries_ok h hr
      cases hli.symm.trans hok
      rw [RedbMetaStore.read, hli] at hs
      intro name e hf
      have hname := congrFun (ok.inj hs) name
      dsimp only [State.answer, State.read] at hname
      rw [hl, hf] at hname
      exact ⟨hr name e hf, readOption_getD_iff.mp hname.symm⟩
  · intro ha
    obtain ⟨entries, hok, hl⟩ := listEntries_ok h fun name e hf => (ha name e hf).1
    rw [RedbMetaStore.read, hok]
    refine congrArg ok (funext fun name => ?_)
    dsimp only [State.answer, State.read]
    rw [hl]
    cases hf : s.find .entries org name with
    | none => rfl
    | some e => exact (readOption_getD_iff.mpr (ha name e hf).2).symm

theorem getPolicy_agrees_iff {name} :
    .ok (s.answer (.getPolicy org name)) = RedbMetaStore.read db (.getPolicy org name) ↔
      ∀ kind rule, s.find .policies org name = some (kind, rule) → withinLimit rule = true := by
  have hg : db.get (cell .policies org name) = s.find .policies org name :=
    (h.get_map fieldOf_policies name).trans map_id'
  rw [RedbMetaStore.read, hg]
  dsimp only [State.answer, State.read]
  cases s.find .policies org name with
  | none => exact iff_of_true rfl nofun
  | some policy =>
    obtain ⟨kind, rule⟩ := policy
    by_cases hr : withinLimit rule = true
    · have hde : dePolicy (kind, rule) = .ok (kind, rule) := if_pos hr
      simp [hde, hr]
    · have hde : dePolicy (kind, rule) = .error recursionLimit := if_neg hr
      simp [hde, hr]

theorem listPolicies_agrees_iff : .ok (s.answer (.listPolicies org)) = RedbMetaStore.read db (.listPolicies org) ↔
      ∀ name kind rule, s.find .policies org name = some (kind, rule) → withinLimit rule = true := by
  rw [RedbMetaStore.read, listOrg_policies h]
  constructor
  · intro hs name kind rule hf
    have hl : (name, kind, rule) ∈ s.listed .policies org := mem_iter.mpr hf
    obtain ⟨_, -, hr⟩ := exists_mem_of_mapM_ok hs.symm hl
    by_contra hd
    have hde : dePolicy (kind, rule) = .error recursionLimit := if_neg hd
    dsimp only at hr
    rw [hde] at hr
    cases hr
  · intro ha
    refine (mapM_eq_ok_map fun e he => ?_).symm
    have hde : dePolicy e.2 = .ok e.2 := if_pos (ha e.1 e.2.1 e.2.2 (mem_iter.mp he))
    dsimp only
    rw [hde]
    rfl

end Reads

end EmbeddedMetaStore

/-! ## Runs -/

open EmbeddedMetaStore

inductive Operation
  | write (m : Mutation)
  | read (r : Read)

namespace Operation

abbrev Answer : Operation → Type
  | write m => Except CatalogServiceError m.Reply
  | read r => Except CatalogServiceError r.Answer

/-- Where the stores do not part. -/
def Comparable (s : State) : Operation → Prop
  | write m => m.ReadsBack s
  | read (.listSourceConfigs org) =>
    ∀ name e, s.find .entries org name = some e → e.ReadsBack ∧ e.sourceConfig ≠ some .null
  | read (.listBindings org) => ∀ name e, s.find .entries org name = some e → e.ReadsBack
  | read (.getPolicy org name) =>
    ∀ kind rule, s.find .policies org name = some (kind, rule) → withinLimit rule = true
  | read (.listPolicies org) =>
    ∀ name kind rule, s.find .policies org name = some (kind, rule) → withinLimit rule = true
  | read (.listGrants org) => inOrder derivedOrder (s.field .grants org) = inOrder keyOrder (s.field .grants org)
  | read .listOrgs => ∀ org o, s.orgs.lookup org = some o → o.Owns
  | read _ => True

end Operation

def EmbeddedMetaStore.call (S : EmbeddedMetaStore) : (op : Operation) → op.Answer × EmbeddedMetaStore
  | .write m => S.apply none m
  | .read r => (.ok (S.state.answer r), S)

def RedbMetaStore.call (R : RedbMetaStore) : (op : Operation) → op.Answer × RedbMetaStore
  | .write m => R.apply m
  | .read r => (read R.tables r, R)

structure Stores where
  embedded : EmbeddedMetaStore
  redb : RedbMetaStore

namespace Stores

def empty (path orgId : String) : Stores := ⟨⟨path, orgId, ⟨∅⟩, none, []⟩, ⟨TableFamily.Tables.empty, []⟩⟩

def call (st : Stores) (op : Operation) : Option Stores := some ⟨(st.embedded.call op).2, (st.redb.call op).2⟩

/-- The operation returns the same from both, and the same changes have been emitted then. -/
def SameOn (st : Stores) (op : Operation) : Prop :=
  (st.embedded.call op).1 = (st.redb.call op).1 ∧ (st.embedded.call op).2.feed = (st.redb.call op).2.feed

structure Matches (st : Stores) : Prop where
  holds : EmbeddedMetaStore.Holds st.embedded.state st.redb.tables
  feed : st.embedded.feed = st.redb.feed

theorem matches_empty (path orgId) : (empty path orgId).Matches := by
  refine ⟨fun t org name v => ?_, rfl⟩
  refine iff_of_false (fun hg => ?_) (OrgState.not_stored_default t name v)
  have hn : none = some v := (Tables.get_empty _).symm.trans hg
  cases hn

theorem read_same_iff {s db} (h : EmbeddedMetaStore.Holds s db) (r) :
    .ok (s.answer r) = RedbMetaStore.read db r ↔ (Operation.read r).Comparable s := by
  cases r with
  | listSourceConfigs org => exact listSourceConfigs_agrees_iff h
  | listBindings org => exact listBindings_agrees_iff h
  | getPolicy org name => exact getPolicy_agrees_iff h
  | listPolicies org => exact listPolicies_agrees_iff h
  | listGrants org =>
    dsimp only [RedbMetaStore.read]
    rw [listGrants_eq h, ok.injEq]
    exact Iff.rfl
  | listOrgs =>
    dsimp only [RedbMetaStore.read]
    rw [ok.injEq]
    exact listOrgs_agrees_iff h
  | getSecret org name =>
    exact iff_of_true (congrArg ok ((h.get_map fieldOf_secrets name).trans map_id').symm) trivial
  | listSecretNames org =>
    refine iff_of_true (congrArg ok ?_) trivial
    rw [listOrg_secrets h]
    rfl
  | getUser org name =>
    have hg : db.get (cell .users org name) = s.find .users org name :=
      (h.get_map fieldOf_users name).trans map_id'
    refine iff_of_true (congrArg ok ?_) trivial
    rw [getUser, hg]
    rfl
  | findUser name => exact iff_of_true (congrArg ok (findUser_agrees h name).symm) trivial
  | listUsers org =>
    refine iff_of_true (congrArg ok ?_) trivial
    rw [listOrg_users h]
    rfl
  | listRoles org => exact iff_of_true (congrArg ok (listRoles_agrees h).symm) trivial
  | getDerivedProduct org name =>
    exact iff_of_true (congrArg ok ((h.get_map fieldOf_products name).trans map_id').symm) trivial
  | listDerivedProducts org =>
    refine iff_of_true (congrArg ok ?_) trivial
    rw [listOrg_products h]
    rfl
  | listRolesForUser org user => exact iff_of_true (congrArg ok (listRolesForUser_agrees h user).symm) trivial
  | listRoleMembers org role => exact iff_of_true (congrArg ok (listRoleMembers_agrees h role).symm) trivial

theorem apply_none (S : EmbeddedMetaStore) (m) :
    (S.apply none m).1 = .ok (m.change S.state).reply ∧ (S.apply none m).2.state = (m.change S.state).state ∧
      (S.apply none m).2.feed = S.feed ++ (if (m.change S.state).persisted then m.emits else none).toList := by
  unfold EmbeddedMetaStore.apply
  dsimp only [persist]
  split_ifs
  · exact ⟨rfl, rfl, rfl⟩
  · exact ⟨rfl, rfl, (append_nil _).symm⟩

theorem write_same {st : Stores} (h : st.Matches) {m} (hr : m.ReadsBack st.embedded.state) :
    st.SameOn (.write m) ∧ Matches ⟨(st.embedded.apply none m).2, (st.redb.apply m).2⟩ := by
  obtain ⟨db', ha, hh⟩ := agreesOn_of_readsBack h.holds hr
  obtain ⟨hre, hs, hf⟩ := apply_none st.embedded m
  have hrb : st.redb.apply m = (.ok (m.change st.embedded.state).reply,
      ⟨db', st.redb.feed ++ (if (m.change st.embedded.state).persisted then m.emits else none).toList⟩) := by
    unfold RedbMetaStore.apply
    rw [ha]
  have hsa : (st.embedded.apply none m).2.feed = (st.redb.apply m).2.feed := by rw [hf, hrb, h.feed]
  refine ⟨⟨?_, hsa⟩, ?_, hsa⟩
  · exact hre.trans (congrArg Prod.fst hrb).symm
  · dsimp only
    rw [hs, hrb]
    exact hh

theorem not_write_same {st : Stores} (h : st.Matches) {m} (hd : ¬ m.ReadsBack st.embedded.state) :
    ¬ st.SameOn (.write m) := by
  rintro ⟨hs, -⟩
  have hre : (st.redb.apply m).1 = .error recursionLimit := mutate_fails h.holds hd
  have hr := (apply_none st.embedded m).1
  cases (hr.symm.trans hs).trans hre

theorem sameOn_iff {st : Stores} (h : st.Matches) (op) :
    st.SameOn op ↔ op.Comparable st.embedded.state := by
  cases op with
  | write m => exact ⟨fun hs => not_not.mp fun hd => not_write_same h hd hs, fun hr => (write_same h hr).1⟩
  | read r => exact (and_iff_left h.feed).trans (read_same_iff h.holds r)

theorem matches_call {st st' : Stores} {op} (h : st.Matches) (hc : st.call op = some st')
    (hs : st.SameOn op) : st'.Matches := by
  cases hc
  cases op with
  | write m => exact (write_same h ((sameOn_iff h _).mp hs)).2
  | read r => exact h

end Stores

end Dataglot
