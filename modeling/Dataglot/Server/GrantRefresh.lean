/-
What the live enforcer has once concurrent `GRANT`s and `REVOKE`s have all returned. A
statement publishes what it read after its own write, and nothing orders the publications:
a slow statement puts back what it read before a faster one changed it. The exact condition
under which no schedule does so is that every statement that changes the grants at all is
the only statement there is, up to repetition.
-/
import Dataglot.Library.Runs
import Dataglot.Server.GrantAdmin

namespace Dataglot
open Programs ControlStore GrantAdmin Pool List

/-! ## The grants of a store, as a set -/

namespace ControlStore

variable (st : ControlStore)

def persisted : Set Grant := {g | ∃ row ∈ st.grants, buildGrant row.1 row.2 = g}

/-- The grants recorded for a role; no statement writes such a row. -/
def ofRoles : Set Grant := {g | ∃ row ∈ st.grants, row.2.granteeKind = .role ∧ buildGrant row.1 row.2 = g}

/-- What `load_all_grants` returns when nothing happens meanwhile. -/
def allGrants : List Grant := st.listOrgs.flatMap fun org => (st.listGrants org).map (buildGrant org)

variable {st}

variable {org : String} {g : Grant}

theorem mem_listGrants {record} : record ∈ st.listGrants org ↔ (org, record) ∈ st.grants := by
  simp only [listGrants, mem_map, mem_filter, decide_eq_true_eq, Prod.exists]
  constructor
  · rintro ⟨o, r, ⟨hm, rfl⟩, rfl⟩
    exact hm
  · exact fun hm => ⟨org, record, ⟨hm, rfl⟩, rfl⟩

theorem mem_listOrgs_of_grant {record} (h : (org, record) ∈ st.grants) : org ∈ st.listOrgs := by
  rw [listOrgs, mem_insertionSort, mem_dedup]
  exact mem_append_left _ (mem_append_right _ (mem_map.mpr ⟨_, h, rfl⟩))

theorem mem_map_listGrants : g ∈ (st.listGrants org).map (buildGrant org) ↔ g ∈ st.persisted ∧ g.org = some org := by
  rw [mem_map]
  constructor
  · rintro ⟨record, hm, rfl⟩
    exact ⟨⟨_, mem_listGrants.mp hm, rfl⟩, buildGrant_org org record⟩
  · rintro ⟨⟨⟨o, record⟩, hm, rfl⟩, ho⟩
    cases (buildGrant_org o record).symm.trans ho
    exact ⟨record, mem_listGrants.mpr hm, rfl⟩

theorem exists_org_of_persisted (h : g ∈ st.persisted) : ∃ org ∈ st.listOrgs, g.org = some org := by
  obtain ⟨⟨org, record⟩, hm, rfl⟩ := h
  exact ⟨org, mem_listOrgs_of_grant hm, buildGrant_org org record⟩

theorem mem_allGrants : g ∈ st.allGrants ↔ g ∈ st.persisted := by
  rw [allGrants, mem_flatMap]
  constructor
  · rintro ⟨org, -, hg⟩
    exact (mem_map_listGrants.mp hg).1
  · intro hg
    obtain ⟨org, hl, ho⟩ := exists_org_of_persisted hg
    exact ⟨org, hl, mem_map_listGrants.mpr ⟨hg, ho⟩⟩

end ControlStore

/-! ## What a statement does to it -/

structure GrantStatement where
  org : String
  ddl : GrantDdl

namespace GrantStatement

variable {q q' : GrantStatement} {st : ControlStore} {kept P : Set Grant}

def program (q : GrantStatement) : GrantProgram (Except GrantAdminError GrantOutcome) :=
  GrantAdmin.apply .grant q.org q.ddl

/-- The record of a privilege statement, and whether it is granted or revoked. -/
def record (q : GrantStatement) : Option (Bool × GrantRecord) :=
  match q.ddl with
  | .grantSelect catalog schema table grantee => some (true, .select .user grantee catalog schema table)
  | .grantUsage catalog grantee => some (true, .usage .user grantee catalog)
  | .revokeSelect catalog schema table grantee => some (false, .select .user grantee catalog schema table)
  | .revokeUsage catalog grantee => some (false, .usage .user grantee catalog)
  | .grantRole .. | .revokeRole .. => none

def effect (q : GrantStatement) (st : ControlStore) : ControlStore :=
  match q.ddl with
  | .grantSelect catalog schema table grantee => st.putGrant q.org (.select .user grantee catalog schema table)
  | .grantUsage catalog grantee => st.putGrant q.org (.usage .user grantee catalog)
  | .revokeSelect catalog schema table grantee =>
    (st.deleteGrant q.org (.select .user grantee catalog schema table)).1
  | .revokeUsage catalog grantee => (st.deleteGrant q.org (.usage .user grantee catalog)).1
  | .grantRole role user => st.addRoleMember q.org role user
  | .revokeRole role user => (st.removeRoleMember q.org role user).1

/-- The same on sets of grants. A revoked grant stays if it is there for a role too. -/
def turn (q : GrantStatement) (kept P : Set Grant) : Set Grant :=
  match q.record with
  | some (true, record) => insert (buildGrant q.org record) P
  | some (false, record) => P \ ({buildGrant q.org record} \ kept)
  | none => P

theorem granteeKind_of_record {granted record} (h : q.record = some (granted, record)) :
    record.granteeKind = .user := by
  obtain ⟨org, ddl⟩ := q
  cases ddl <;> cases h <;> rfl

theorem eq_of_record {granted record record'} (h : q.record = some (granted, record))
    (h' : q'.record = some (granted, record')) (hb : buildGrant q.org record = buildGrant q'.org record') :
    q = q' := by
  obtain ⟨org, ddl⟩ := q
  obtain ⟨org', ddl'⟩ := q'
  obtain ⟨rfl, hg, hon⟩ := buildGrant_eq_iff.mp hb
  cases ddl <;> cases h <;> cases ddl' <;> cases h' <;> cases hg <;> cases hon <;> rfl

theorem grants_effect (q : GrantStatement) (st) :
    (q.effect st).grants = match q.record with
      | some (true, record) => st.grants.insert (q.org, record)
      | some (false, record) => st.grants.filter (· ≠ (q.org, record))
      | none => st.grants := by
  obtain ⟨org, ddl⟩ := q
  cases ddl <;> rfl

theorem persisted_effect : (q.effect st).persisted = q.turn st.ofRoles st.persisted := by
  unfold persisted ofRoles turn
  rw [grants_effect]
  ext g
  split
  next record hr => simp [eq_comm]
  next record hr =>
    have hk := granteeKind_of_record hr
    simp only [mem_filter, decide_eq_true_eq, Set.mem_sdiff, Set.mem_ofPred_eq, Set.mem_singleton_iff]
    constructor
    · rintro ⟨row, ⟨hm, hne⟩, rfl⟩
      refine ⟨⟨row, hm, rfl⟩, fun hb => hb.2 ⟨row, hm, ?_, rfl⟩⟩
      -- another row of the same grant differs in the kind of the grantee
      obtain ⟨ho, hg, hon⟩ := buildGrant_eq_iff.mp hb.1
      by_contra hro
      obtain ⟨org, kind, grantee, on⟩ := row
      cases kind with
      | role => exact hro rfl
      | user =>
        refine hne ?_
        rw [Prod.mk.injEq]
        refine ⟨ho, ?_⟩
        obtain ⟨kind, grantee', on'⟩ := record
        cases hk
        cases hg
        cases hon
        rfl
    · rintro ⟨⟨row, hm, rfl⟩, hs⟩
      by_cases hb : buildGrant row.1 row.2 = buildGrant q.org record
      · obtain ⟨twin, hm', hro, ht⟩ := not_not.mp fun hn => hs ⟨hb, hn⟩
        refine ⟨twin, ⟨hm', ?_⟩, ht⟩
        rintro rfl
        cases hk.symm.trans hro
      · refine ⟨row, ⟨hm, ?_⟩, rfl⟩
        rintro rfl
        exact hb rfl
  next => rfl

theorem ofRoles_effect : (q.effect st).ofRoles = st.ofRoles := by
  unfold ofRoles
  rw [grants_effect]
  ext g
  have hk : ∀ {granted record row}, q.record = some (granted, record) → row.2.granteeKind = GranteeKind.role →
      row ≠ (q.org, record) := by
    rintro granted record row hr hro rfl
    cases (granteeKind_of_record hr).symm.trans hro
  split
  next record hr =>
    constructor
    · rintro ⟨row, hm, hro, hg⟩
      exact ⟨row, (mem_insert_iff.mp hm).resolve_left (hk hr hro), hro, hg⟩
    · rintro ⟨row, hm, hro, hg⟩
      exact ⟨row, mem_insert_of_mem hm, hro, hg⟩
  next record hr =>
    constructor
    · rintro ⟨row, hm, hro, hg⟩
      exact ⟨row, (mem_filter.mp hm).1, hro, hg⟩
    · rintro ⟨row, hm, hro, hg⟩
      exact ⟨row, mem_filter.mpr ⟨hm, decide_eq_true (hk hr hro)⟩, hro, hg⟩
  next => rfl

theorem turn_turn : q.turn kept (q.turn kept P) = q.turn kept P := by
  unfold turn
  split
  · exact Set.insert_eq_of_mem (Set.mem_insert _ _)
  · rw [Set.sdiff_sdiff, Set.union_self]
  · rfl

/-- Where a statement changes the grants, no other statement makes the change, and whatever comes before the statement
leads to it. -/
theorem exists_turned (hc : q.turn kept P ≠ P) (hne : q' ≠ q) :
    ∃ g, (g ∈ q'.turn kept P ↔ g ∈ P) ∧ ∀ Q, g ∈ q.turn kept Q ↔ g ∉ P := by
  have ho : ∀ {granted record record'}, q.record = some (granted, record) → q'.record = some (granted, record') →
      buildGrant q.org record ≠ buildGrant q'.org record' := fun h h' hb => hne (eq_of_record h' h hb.symm)
  unfold turn at hc
  split at hc
  next record hr =>
    have hn : buildGrant q.org record ∉ P := fun hm => hc (Set.insert_eq_of_mem hm)
    refine ⟨buildGrant q.org record, ?_, fun Q => ?_⟩
    · unfold turn
      split
      next record' hr' =>
        exact ⟨fun h => h.resolve_left (ho hr hr'), fun h => absurd h hn⟩
      next record' hr' => exact ⟨fun h => h.1, fun h => absurd h hn⟩
      next => rfl
    · unfold turn
      rw [hr]
      exact ⟨fun _ => hn, fun _ => Set.mem_insert _ _⟩
  next record hr =>
    have hol : buildGrant q.org record ∈ P ∧ buildGrant q.org record ∉ kept := by
      refine not_not.mp fun hno => hc (Set.ext fun g => ⟨fun h => h.1, fun h => ⟨h, ?_⟩⟩)
      rintro ⟨rfl, hk⟩
      exact hno ⟨h, hk⟩
    refine ⟨buildGrant q.org record, ?_, fun Q => ?_⟩
    · unfold turn
      split
      next record' hr' => exact ⟨fun _ => hol.1, fun h => Set.mem_insert_of_mem _ h⟩
      next record' hr' =>
        exact ⟨fun h => h.1, fun h => ⟨h, fun hm => ho hr hr' hm.1⟩⟩
      next => rfl
    · unfold turn
      rw [hr]
      exact ⟨fun h => absurd ⟨rfl, hol.2⟩ h.2, fun h => absurd hol.1 h⟩
  next => exact absurd rfl hc

end GrantStatement

/-! ## A statement on its own -/

/-- No store call fails. -/
abbrev GrantPlane.quietly : Unit → GrantPlane → (op : GrantOp) → op.Reply × GrantPlane := fun _ => exec none

section Alone

open GrantPlane

variable {q : GrantStatement} {s : GrantPlane}

theorem goes_loadOrgs : ∀ orgs out, Goes quietly s (loadOrgs orgs out) s
    (.done (.ok (out ++ orgs.flatMap fun org => (s.store.listGrants org).map (buildGrant org))))
  | [], out => by
    rw [flatMap_nil, append_nil]
    exact .refl
  | org :: orgs, out => by
    rw [flatMap_cons, ← append_assoc]
    exact .ask () rfl (goes_loadOrgs orgs _)

theorem write_eq (q : GrantStatement) : ∃ (op : GrantOp) (outcome : op.Reply → Except StoreFailure GrantOutcome),
      write q.org q.ddl = .ask op (fun r => .done (outcome r)) ∧
      ∀ s : GrantPlane, ∃ r o, s.exec none op = (r, { s with store := q.effect s.store }) ∧ outcome r = .ok o := by
  obtain ⟨org, ddl⟩ := q
  cases ddl <;> exact ⟨_, _, rfl, fun s => ⟨_, _, rfl, rfl⟩⟩

theorem goes_to_publish : ∃ outcome, Goes quietly s q.program ⟨q.effect s.store, s.enforcer⟩
    (.ask (.publish (q.effect s.store).allGrants) fun _ => .done (.ok outcome)) := by
  obtain ⟨op, outcome, hw, he⟩ := write_eq q
  obtain ⟨r, o, hs, ho⟩ := he s
  refine ⟨o, ?_⟩
  unfold GrantStatement.program apply
  rw [hw]
  refine .ask () hs ?_
  simp only [ho]
  refine .ask () rfl ?_
  have hl : Goes quietly ⟨q.effect s.store, s.enforcer⟩ (loadOrgs (q.effect s.store).listOrgs []) _ _ :=
    goes_loadOrgs _ _
  exact (hl.bind _).bind _

theorem goes_program : ∃ outcome, Goes quietly s q.program
    ⟨q.effect s.store, s.enforcer.publish (q.effect s.store).allGrants⟩ (.done (.ok outcome)) := by
  obtain ⟨outcome, hg⟩ := goes_to_publish (q := q) (s := s)
  exact ⟨outcome, hg.trans (.ask () rfl .refl)⟩

end Alone

/-! ## Sessions -/

abbrev GrantSessions (ι : Type) : Type :=
  Pool ι GrantPlane GrantOp GrantOp.Reply (Except GrantAdminError GrantOutcome)

namespace GrantSessions

variable {ι : Type}

def initial (statements : ι → GrantStatement) (store : ControlStore) (defaults : Option (String × String)) :
    GrantSessions ι :=
  ⟨⟨store, ⟨.grant, store.allGrants, defaults⟩⟩, fun i => some (statements i).program⟩

abbrev exec (ι : Type) : ι → Unit → GrantPlane → (op : GrantOp) → op.Reply × GrantPlane := fun _ => GrantPlane.quietly

/-- The live grants are those of the store. -/
def Converged (s : GrantSessions ι) : Prop :=
  ∀ g, g ∈ s.shared.enforcer.grants ↔ g ∈ s.shared.store.persisted

/-! ### A slow statement -/

section Slow

variable [DecidableEq ι] {statements : ι → GrantStatement}

theorem reaches_returned : ∀ (l : List ι) (s : GrantSessions ι), l.Nodup →
    (∀ i ∈ l, s.procs i = some (statements i).program) →
    ∃ s', Pool.Reaches (exec ι) s s' ∧ s'.shared.store.ofRoles = s.shared.store.ofRoles ∧
      (∀ i ∈ l, (s'.result i).isSome) ∧ ∀ i ∉ l, s'.procs i = s.procs i
  | [], s, _, _ => ⟨s, .refl, rfl, nofun, fun _ _ => rfl⟩
  | i :: l, s, hn, hp => by
    obtain ⟨hi, hl⟩ := nodup_cons.mp hn
    obtain ⟨outcome, hg⟩ := goes_program (q := statements i) (s := s.shared)
    have hf : Pool.Reaches (exec ι) s _ := reaches_of_goes hg (hp i mem_cons_self)
    have hp' : ∀ k ∈ l, Function.update s.procs i (some (.done (.ok outcome))) k = some (statements k).program := by
      intro k hk
      rw [Function.update_of_ne (ne_of_mem_of_not_mem hk hi)]
      exact hp k (mem_cons_of_mem i hk)
    obtain ⟨s', hre, hr, hd, hke⟩ := reaches_returned l ⟨_, _⟩ hl hp'
    refine ⟨s', hf.trans hre, hr.trans GrantStatement.ofRoles_effect, fun k hk => ?_, fun k hk => ?_⟩
    · obtain rfl | hk := mem_cons.mp hk
      · have hk' : s'.procs k = _ := (hke k hi).trans (Function.update_self ..)
        rw [result_eq_some.mpr hk']
        rfl
      · exact hd k hk
    · obtain ⟨hki, hkl⟩ := ne_and_not_mem_of_not_mem_cons hk
      exact (hke k hkl).trans (Function.update_of_ne hki _ _)

/-- One statement reads everything and pauses; all the others run, the one that changes the grants last; then the first
publishes what it read. -/
theorem reaches_stale [Fintype ι] {i j store defaults} (hne : statements i ≠ statements j)
    (hch : (statements j).turn store.ofRoles store.persisted ≠ store.persisted) :
    ∃ s, Pool.Reaches (exec ι) (initial statements store defaults) s ∧ (∀ k, (s.result k).isSome) ∧ ¬ Converged s := by
  have hij : i ≠ j := fun h => hne (congrArg statements h)
  obtain ⟨outcome, hre⟩ := goes_to_publish (q := statements i) (s := (initial statements store defaults).shared)
  have hp : Pool.Reaches (exec ι) (initial statements store defaults) _ := reaches_of_goes hre rfl
  generalize hpu : (Prog.ask (GrantOp.publish _) _ : GrantProgram (Except GrantAdminError GrantOutcome)) = publish
    at hp
  have hpr : ∀ k ≠ i, Function.update (initial statements store defaults).procs i (some publish) k =
      some (statements k).program := fun k hk => Function.update_of_ne hk _ _
  have ho : ∀ k, k ∈ ((Finset.univ.erase i).erase j).toList ↔ k ≠ j ∧ k ≠ i := by
    intro k
    rw [Finset.mem_toList, Finset.mem_erase, Finset.mem_erase]
    simp
  obtain ⟨s₂, hru, hr, hd, hke⟩ := reaches_returned ((Finset.univ.erase i).erase j).toList ⟨_, _⟩
    (Finset.nodup_toList _) fun k hk => hpr k ((ho k).mp hk).2
  have hj : s₂.procs j = some (statements j).program :=
    (hke j fun h => ((ho j).mp h).1 rfl).trans (hpr j hij.symm)
  have hi : s₂.procs i = some publish :=
    (hke i fun h => ((ho i).mp h).2 rfl).trans (Function.update_self ..)
  obtain ⟨outcome', hlast⟩ := goes_program (q := statements j) (s := s₂.shared)
  subst hpu
  refine ⟨_, (hp.trans hru).trans (reaches_overtaken hij hi hj .refl hlast ()), fun k => ?_, ?_⟩
  · by_cases hki : k = i
    · subst hki
      rw [result_eq_some.mpr (Function.update_self ..)]
      rfl
    · by_cases hkj : k = j
      · subst hkj
        rw [result_eq_some.mpr ((Function.update_of_ne hki _ _).trans (Function.update_self ..))]
        rfl
      · obtain ⟨a, ha⟩ := Option.isSome_iff_exists.mp (hd k ((ho k).mpr ⟨hkj, hki⟩))
        rw [result_eq_some.mpr ((Function.update_of_ne hki _ _).trans
          ((Function.update_of_ne hkj _ _).trans (result_eq_some.mp ha)))]
        rfl
  · intro hc
    obtain ⟨g, hre, hf⟩ := GrantStatement.exists_turned hch hne
    have hl : g ∈ store.persisted ↔ g ∉ store.persisted :=
      calc g ∈ store.persisted ↔ g ∈ ((statements i).effect store).persisted := by
            rw [GrantStatement.persisted_effect]
            exact hre.symm
        _ ↔ g ∈ ((statements i).effect store).allGrants := mem_allGrants.symm
        _ ↔ g ∈ ((statements j).effect s₂.shared.store).persisted := hc g
        _ ↔ g ∉ store.persisted := by
            rw [GrantStatement.persisted_effect, hr, GrantStatement.ofRoles_effect]
            exact hf _
    exact iff_not_self hl

end Slow

/-! ### Statements that lead to the same grants -/

section Settles

variable {kept before after : Set Grant} {s : GrantPlane} {q : GrantStatement}

/-- The store has the grants that all statements lead to. -/
def Settled (kept after : Set Grant) (s : GrantPlane) : Prop :=
  s.store.ofRoles = kept ∧ s.store.persisted = after

def Live (after : Set Grant) (s : GrantPlane) : Prop := ∀ g, g ∈ s.enforcer.grants ↔ g ∈ after

/-- A step that leads there, and not away. -/
structure Toward (kept before after : Set Grant) (s s' : GrantPlane) : Prop where
  settling : Settled kept before s ∨ Settled kept after s → Settled kept before s' ∨ Settled kept after s'
  settled : Settled kept after s → Settled kept after s'
  live : Live after s → Live after s'

def settling (kept before after : Set Grant) : Terms GrantPlane GrantOp GrantOp.Reply where
  rely := Toward kept before after
  guar s _ _ s' := Toward kept before after s s'
  refl _ := ⟨id, id, id⟩
  trans h h' := ⟨h'.settling ∘ h.settling, h'.settled ∘ h.settled, h'.live ∘ h.live⟩

theorem stable_settled : (settling kept before after).Stable (Settled kept after) := fun _ _ h => h.settled

theorem wp_loadOrgs : ∀ {s} (orgs : List String) (out : List Grant), Settled kept after s →
    wp GrantPlane.quietly (settling kept before after) (GrantAdmin.loadOrgs orgs out)
      (fun r s => Settled kept after s ∧ ∃ grants, r = .ok grants ∧
        ∀ g, g ∈ grants ↔ g ∈ out ∨ g ∈ after ∧ ∃ org ∈ orgs, g.org = some org) s
  | s, [], out, hs => ⟨hs, out, rfl, fun g => by simp⟩
  | s, org :: orgs, out, hs => by
    refine wp_ask stable_settled hs fun s _ hs => ⟨(settling kept before after).refl s, ?_⟩
    refine wp_mono (fun r s h => ?_) (wp_loadOrgs orgs _ hs)
    obtain ⟨hs', grants, hr, hg⟩ := h
    refine ⟨hs', grants, hr, fun g => ?_⟩
    rw [hg, mem_append, mem_map_listGrants, hs.2]
    simp only [mem_cons, exists_eq_or_imp]
    tauto

theorem wp_loadAllGrants (hs : Settled kept after s) :
    wp GrantPlane.quietly (settling kept before after) GrantAdmin.loadAllGrants
      (fun r s => Settled kept after s ∧ ∃ grants, r = .ok grants ∧ ∀ g, g ∈ grants ↔ g ∈ after) s := by
  refine wp_ask stable_settled hs fun s _ hs => ⟨(settling kept before after).refl s, ?_⟩
  refine wp_mono (fun r s' h => ?_) (wp_loadOrgs s.store.listOrgs [] hs)
  obtain ⟨hs', grants, hr, hg⟩ := h
  refine ⟨hs', grants, hr, fun g => ?_⟩
  rw [hg]
  constructor
  · rintro (h | ⟨h, -⟩)
    · cases h
    · exact h
  · intro h
    exact .inr ⟨h, exists_org_of_persisted (hs.2 ▸ h)⟩

theorem wp_refresh (org) (hs : Settled kept after s) :
    wp GrantPlane.quietly (settling kept before after) (GrantAdmin.refresh .grant org)
      (fun r s => r = .ok () ∧ Settled kept after s ∧ Live after s) s := by
  refine wp_bind.mpr (wp_mono (fun r s h => ?_) (wp_loadAllGrants hs))
  obtain ⟨hs, grants, rfl, hg⟩ := h
  refine wp_ask stable_settled hs fun s _ hs => ?_
  exact ⟨⟨id, id, fun _ => hg⟩, rfl, hs, hg⟩

theorem toward_effect (hb : q.turn kept before = after) (ha : q.turn kept after = after) :
    Toward kept before after s { s with store := q.effect s.store } ∧
    (Settled kept before s ∨ Settled kept after s → Settled kept after { s with store := q.effect s.store }) := by
  have hs : ∀ P, q.turn kept P = after → Settled kept P s →
      Settled kept after { s with store := q.effect s.store } := by
    rintro P hP ⟨rfl, rfl⟩
    exact ⟨GrantStatement.ofRoles_effect, GrantStatement.persisted_effect.trans hP⟩
  have hal : Settled kept before s ∨ Settled kept after s →
      Settled kept after { s with store := q.effect s.store } := by
    rintro (h | h)
    · exact hs before hb h
    · exact hs after ha h
  exact ⟨⟨fun h => .inr (hal h), hs after ha, id⟩, hal⟩

theorem wp_program (hb : q.turn kept before = after) (ha : q.turn kept after = after)
    (hs : Settled kept before s ∨ Settled kept after s) : wp GrantPlane.quietly (settling kept before after) q.program
      (fun _ s => Settled kept after s ∧ Live after s) s := by
  obtain ⟨op, outcome, hw, he⟩ := write_eq q
  unfold GrantStatement.program apply
  rw [hw]
  refine wp_ask (P := fun s => Settled kept before s ∨ Settled kept after s) (fun s s' h => h.settling) hs
    fun s _ hs => ?_
  obtain ⟨r, o, hst, ho⟩ := he s
  obtain ⟨ht, hse⟩ := toward_effect (s := s) hb ha
  rw [show GrantPlane.quietly () s op = (r, _) from hst]
  refine ⟨ht, ?_⟩
  simp only [ho]
  refine (wp_bind (p := refresh .grant q.org)).mpr (wp_mono (fun r s h => ?_) (wp_refresh q.org (hse hs)))
  obtain ⟨rfl, h⟩ := h
  exact h

end Settles

/-- A statement changes the grants of a store. -/
def Changes (q : GrantStatement) (store : ControlStore) : Prop := (q.effect store).persisted ≠ store.persisted

/-- Repeated statements, and statements that change nothing, agree about the grants they lead to. -/
theorem exists_agreed {statements : ι → GrantStatement} {store}
    (h : ∀ i j, Changes (statements j) store → statements i = statements j) :
    ∃ after, ∀ i, (statements i).turn store.ofRoles store.persisted = after ∧
      (statements i).turn store.ofRoles after = after := by
  by_cases hc : ∃ j, Changes (statements j) store
  · obtain ⟨j, hj⟩ := hc
    refine ⟨(statements j).turn store.ofRoles store.persisted, fun i => ?_⟩
    rw [h i j hj]
    exact ⟨rfl, GrantStatement.turn_turn⟩
  · have hs : ∀ i, (statements i).turn store.ofRoles store.persisted = store.persisted := fun i =>
      GrantStatement.persisted_effect.symm.trans (not_not.mp fun hi => hc ⟨i, hi⟩)
    exact ⟨store.persisted, fun i => ⟨hs i, hs i⟩⟩

theorem sound_of_reaches [DecidableEq ι] {statements store defaults after} {s : GrantSessions ι}
    (ha : ∀ i, (statements i).turn store.ofRoles store.persisted = after ∧
      (statements i).turn store.ofRoles after = after)
    (hr : Pool.Reaches (exec ι) (initial statements store defaults) s) :
    Sound (exec ι) (fun _ => settling store.ofRoles store.persisted after)
      (fun _ _ s => Settled store.ofRoles after s ∧ Live after s) s := by
  induction hr with
  | refl =>
    rintro i p ⟨⟩
    exact wp_program (ha i).1 (ha i).2 (.inl ⟨rfl, rfl⟩)
  | tail _ hru ih =>
    obtain ⟨i, c, hru⟩ := hru
    exact ih.run (fun _ _ _ _ h hs => ⟨h.settled hs.1, h.live hs.2⟩) (fun _ _ _ _ _ _ _ h => h) hru

/-- Once all statements have returned the live grants are the stored ones, in every schedule, if and only if every
statement that changes the grants is the same as all the others. -/
theorem grants_converge_iff [Fintype ι] [DecidableEq ι] (statements : ι → GrantStatement) (store : ControlStore)
    (defaults : Option (String × String)) :
    (∀ s, Pool.Reaches (exec ι) (initial statements store defaults) s → (∀ i, (s.result i).isSome) → Converged s) ↔
    ∀ i j, Changes (statements j) store → statements i = statements j := by
  constructor
  · intro hco i j hc
    by_contra hne
    unfold Changes at hc
    rw [GrantStatement.persisted_effect] at hc
    obtain ⟨s, hr, hre, hst⟩ := reaches_stale hne hc
    exact hst (hco s hr hre)
  · intro hsa s hr hre
    obtain ⟨after, ha⟩ := exists_agreed hsa
    obtain he | ⟨⟨i⟩⟩ := isEmpty_or_nonempty ι
    · -- without statements nothing has happened
      cases hr with
      | refl => exact fun g => mem_allGrants
      | tail _ hru => exact he.elim hru.choose
    · obtain ⟨outcome, hi⟩ := Option.isSome_iff_exists.mp (hre i)
      obtain ⟨hs, hl⟩ := sound_of_reaches ha hr i _ (result_eq_some.mp hi)
      intro g
      rw [hl g, hs.2]

/-- Two orgs with a grant each. -/
def twoOrgs : ControlStore where
  orgs := ∅
  grants := [("acme", .usage .user "alice" "lake"), ("beta", .usage .user "bob" "lake")]
  otherOrgs := []

/-- `acme` revokes its grant while `beta` grants another. -/
def revokeAndGrant (revokes : Bool) : GrantStatement :=
  if revokes then ⟨"acme", .revokeUsage "lake" "alice"⟩ else ⟨"beta", .grantUsage "sales" "bob"⟩

/-- The `GRANT` writes and reads the grants of `acme`, the `REVOKE` runs to its end, the `GRANT` goes on. -/
def revokeMeanwhile : List Bool := List.replicate 3 false ++ List.replicate 4 true ++ List.replicate 2 false

/-- The `REVOKE` has returned, and what it revoked is live again. -/
theorem revoke_undone : ∃ s,
    Runs.run (fun s i => Pool.run (exec Bool) i () s) (initial revokeAndGrant twoOrgs none) revokeMeanwhile = some s ∧
    s.result true = some (.ok .revoked) ∧ s.result false = some (.ok .granted) ∧ ¬ Converged s := by
  have hru : (Runs.run (fun s i => run (exec Bool) i () s) (initial revokeAndGrant twoOrgs none)
      revokeMeanwhile).map (fun s => (s.result true, s.result false,
        decide (Grant.usage "alice" (some "acme") "lake" ∈ s.shared.enforcer.grants),
        decide (Grant.usage "alice" (some "acme") "lake" ∈ s.shared.store.allGrants))) =
      some (some (.ok .revoked), some (.ok .granted), true, false) := by decide +kernel
  obtain ⟨s, hs, he⟩ := Option.map_eq_some_iff.mp hru
  simp only [Prod.mk.injEq, decide_eq_true_eq, decide_eq_false_iff_not] at he
  obtain ⟨hr, hg, hl, hgo⟩ := he
  exact ⟨s, hs, hr, hg, fun h => hgo (mem_allGrants.mpr ((h _).mp hl))⟩

end GrantSessions

end Dataglot
