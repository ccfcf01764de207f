/-
What a principal has that was dropped and created again. Users, roles, memberships and
grants are separate tables keyed by names: `delete_user` and `delete_role` remove one row,
and a membership or a grant goes only with the `REVOKE` that names it. So a principal that
is created starts with whatever its name was granted before and not revoked since.
-/
import Dataglot.Server.GrantRefresh

namespace Dataglot
open UserAdmin Option List AList MetaStore

/-! ## Members -/

namespace MetaStore

variable {st : MetaStore}

def members (st : MetaStore) (org role : String) : List String :=
  ((st.orgs.lookup org).bind fun o => o.roleMembers.lookup role).getD []

theorem mem_listRolesForUser {org role user} : role ∈ st.listRolesForUser org user ↔ user ∈ st.members org role := by
  unfold listRolesForUser members
  cases st.orgs.lookup org with
  | none => simp
  | some o =>
    simp only [map_some, getD_some, mem_filter, mem_insertionSort, bind_some,
      contains_eq_mem, decide_eq_true_eq, and_iff_right_iff_imp]
    intro h
    rw [← AList.mem_keys, ← AList.lookup_isSome]
    cases hr : o.roleMembers.lookup role with
    | none => simp [hr] at h
    | some _ => rfl

theorem members_modifyOrg (org f o r) :
    (st.modifyOrg org f).members o r = if o = org then
      ((f ((st.orgs.lookup org).getD .empty)).roleMembers.lookup r).getD [] else st.members o r := by
  unfold members modifyOrg
  split_ifs with ho
  · subst ho
    simp only [lookup_insert, bind_some]
  · simp only [lookup_insert_ne ho]

theorem members_eq_lookup (o r) :
    st.members o r = (((st.orgs.lookup o).getD .empty).roleMembers.lookup r).getD [] := by
  unfold members
  cases st.orgs.lookup o <;> rfl

theorem members_modifyOrg_of_roleMembers (org) {f}
    (hf : ∀ s, (f s).roleMembers = s.roleMembers) (o r) :
    (st.modifyOrg org f).members o r = st.members o r := by
  rw [members_modifyOrg, hf]
  split_ifs with ho
  · rw [ho, members_eq_lookup]
  · rfl

theorem mem_members_addRoleMember {org role user o r u} :
    u ∈ (st.addRoleMember org role user).members o r ↔ (o = org ∧ r = role ∧ u = user) ∨ u ∈ st.members o r := by
  rw [addRoleMember, members_modifyOrg]
  split_ifs with ho
  · subst ho
    rw [members_eq_lookup]
    by_cases hr : r = role
    · subst hr
      simp
    · simp [lookup_insert_ne hr, hr]
  · simp [ho]

theorem lookup_withMembers (m : HashMap (List String)) (role r members) :
    ((if members.isEmpty then m.erase role else m.insert role members).lookup r).getD [] =
      if r = role then members else (m.lookup r).getD [] := by
  by_cases hr : r = role
  · subst hr
    rw [if_pos rfl]
    split_ifs with he
    · rw [lookup_erase, isEmpty_iff.mp he]
      rfl
    · rw [lookup_insert]
      rfl
  · rw [if_neg hr]
    split_ifs
    · rw [lookup_erase_ne hr]
    · rw [lookup_insert_ne hr]

theorem mem_members_removeRoleMember {org role user o r u} : u ∈ (st.removeRoleMember org role user).1.members o r ↔
      ¬ (o = org ∧ r = role ∧ u = user) ∧ u ∈ st.members o r := by
  have hk : user ∉ st.members org role → (u ∈ st.members o r ↔ ¬ (o = org ∧ r = role ∧ u = user) ∧ u ∈ st.members o r) := by
    intro ha
    refine ⟨fun h => ⟨?_, h⟩, fun h => h.2⟩
    rintro ⟨rfl, rfl, rfl⟩
    exact ha h
  unfold removeRoleMember
  split
  next hn =>
    refine hk ?_
    unfold members
    rw [hn]
    exact not_mem_nil
  next ms hms =>
    have hm : st.members org role = ms := by
      unfold members
      rw [hms]
      rfl
    split_ifs with hme
    · dsimp only
      rw [members_modifyOrg]
      by_cases ho : o = org
      · rw [if_pos ho, lookup_withMembers, ho]
        split_ifs with hr
        · rw [hr, hm, mem_filter, decide_eq_true_eq]
          simp [and_comm]
        · rw [members_eq_lookup]
          simp [hr]
      · rw [if_neg ho]
        simp [ho]
    · refine hk ?_
      rw [hm]
      simpa using hme

theorem members_putUser (org name) (hash : Option String) (isSuperuser o r) :
    (st.putUser org name hash isSuperuser).members o r = st.members o r := by
  refine members_modifyOrg_of_roleMembers org ?_ o r
  intro s
  rfl

theorem members_deleteUser (org name o r) : (st.deleteUser org name).1.members o r = st.members o r := by
  unfold deleteUser
  split_ifs
  · refine members_modifyOrg_of_roleMembers org ?_ o r
    intro s
    rfl
  · rfl

theorem members_putRole (org name o r) : (st.putRole org name).members o r = st.members o r := by
  refine members_modifyOrg_of_roleMembers org ?_ o r
  intro s
  rfl

theorem members_deleteRole (org name o r) : (st.deleteRole org name).1.members o r = st.members o r := by
  unfold deleteRole
  split_ifs
  · refine members_modifyOrg_of_roleMembers org ?_ o r
    intro s
    rfl
  · rfl

theorem members_apply {cipher nonce org ddl outcome st'} (h : apply cipher nonce st org ddl = .ok (outcome, st'))
    (o r) :
    st'.members o r = st.members o r := by
  cases ddl with
  | createUser name password superuser ifNotExists =>
    dsimp only [apply, createUser] at h
    split_ifs at h
    · cases h
      rfl
    · cases password with
      | none =>
        cases h
        exact members_putUser ..
      | some pw =>
        obtain ⟨hash, -, h⟩ := Except.bind_ok_iff.mp h
        cases h
        exact members_putUser ..
  | alterUserPassword name password =>
    dsimp only [apply] at h
    split at h
    next => cases h
    next record old hget =>
      obtain ⟨hash, -, h⟩ := Except.bind_ok_iff.mp h
      cases h
      exact members_putUser ..
  | dropUser name ifExists =>
    dsimp only [apply] at h
    split_ifs at h <;> cases h
    · exact members_deleteUser ..
    · rfl
  | createRole name ifNotExists =>
    dsimp only [apply] at h
    split_ifs at h <;> cases h
    · rfl
    · exact members_putRole ..
  | dropRole name ifExists =>
    dsimp only [apply] at h
    split_ifs at h <;> cases h
    · exact members_deleteRole ..
    · rfl

end MetaStore

/-! ## Histories -/

/-- A row that gives something to a name. -/
inductive GrantRow
  | privilege (org : String) (record : GrantRecord)
  | membership (org role user : String)
  deriving DecidableEq

def GrantRow.About (org name : String) : GrantRow → Prop
  | privilege o record => o = org ∧ record.grantee = name
  | membership o _ user => o = org ∧ user = name

def ControlStore.Has (st : ControlStore) : GrantRow → Prop
  | .privilege org record => (org, record) ∈ st.grants
  | .membership org role user => user ∈ st.members org role

namespace GrantStatement

def row (q : GrantStatement) : GrantRow :=
  match q.ddl with
  | .grantSelect catalog schema table grantee | .revokeSelect catalog schema table grantee =>
    .privilege q.org (.select .user grantee catalog schema table)
  | .grantUsage catalog grantee | .revokeUsage catalog grantee => .privilege q.org (.usage .user grantee catalog)
  | .grantRole role user | .revokeRole role user => .membership q.org role user

def isGrant (q : GrantStatement) : Bool :=
  match q.ddl with
  | .grantSelect .. | .grantUsage .. | .grantRole .. => true
  | .revokeSelect .. | .revokeUsage .. | .revokeRole .. => false

theorem has_effect {q : GrantStatement} {st row} :
    (q.effect st).Has row ↔ if q.isGrant then row = q.row ∨ st.Has row else row ≠ q.row ∧ st.Has row := by
  obtain ⟨org, ddl⟩ := q
  cases ddl with
  | grantSelect | grantUsage =>
    cases row <;> simp [effect, isGrant, GrantStatement.row, ControlStore.Has, ControlStore.putGrant]
  | revokeSelect | revokeUsage =>
    cases row <;> simp [effect, isGrant, GrantStatement.row, ControlStore.Has, ControlStore.deleteGrant, and_comm,
      imp_iff_not_or]
  | grantRole role user =>
    cases row <;> simp [effect, isGrant, GrantStatement.row, ControlStore.Has, ControlStore.addRoleMember,
      mem_members_addRoleMember]
  | revokeRole role user =>
    cases row <;> simp [effect, isGrant, GrantStatement.row, ControlStore.Has, ControlStore.removeRoleMember,
      mem_members_removeRoleMember]

end GrantStatement

/-- A user or role statement, with the nonce its password takes, or a `GRANT` or `REVOKE`. -/
inductive PrincipalStatement
  | user (nonce org : String) (ddl : UserDdl)
  | grant (q : GrantStatement)

namespace PrincipalStatement

def Grants (row : GrantRow) (e : PrincipalStatement) : Prop := ∃ q, e = .grant q ∧ q.isGrant = true ∧ q.row = row

def Revokes (row : GrantRow) (e : PrincipalStatement) : Prop := ∃ q, e = .grant q ∧ q.isGrant = false ∧ q.row = row

@[simp] theorem grants_grant {row q} : Grants row (.grant q) ↔ q.isGrant = true ∧ q.row = row := by
  simp [Grants]

@[simp] theorem revokes_grant {row q} : Revokes row (.grant q) ↔ q.isGrant = false ∧ q.row = row := by
  simp [Revokes]

end PrincipalStatement

namespace ControlStore

variable (cipher : Option SecretCipher)

/-- A statement run on its own. One that is refused leaves the store as it was. -/
def apply (st : ControlStore) : PrincipalStatement → ControlStore
  | .user nonce org ddl =>
    match UserAdmin.apply cipher nonce st.toMetaStore org ddl with
    | .ok (_, st') => { st with toMetaStore := st' }
    | .error _ => st
  | .grant q => q.effect st

def run (st : ControlStore) (history : List PrincipalStatement) : ControlStore := history.foldl (apply cipher) st

variable {cipher} {st : ControlStore} {row : GrantRow}

theorem has_apply_user {nonce org ddl} : (st.apply cipher (.user nonce org ddl)).Has row ↔ st.Has row := by
  dsimp only [apply]
  split
  next outcome st' h =>
    cases row with
    | privilege => rfl
    | membership o r u =>
      show u ∈ st'.members o r ↔ u ∈ st.members o r
      rw [members_apply h]
  next => rfl

theorem has_apply (st : ControlStore) (e) :
    (st.apply cipher e).Has row ↔ e.Grants row ∨ st.Has row ∧ ¬ e.Revokes row := by
  cases e with
  | user nonce org ddl =>
    rw [has_apply_user]
    simp [PrincipalStatement.Grants, PrincipalStatement.Revokes]
  | grant q =>
    rw [show st.apply cipher (.grant q) = q.effect st from rfl, GrantStatement.has_effect]
    cases hg : q.isGrant with
    | true => simp [hg, eq_comm (a := row)]
    | false => simp [hg, eq_comm (a := row), and_comm]

/-- A row is absent if and only if each of its `GRANT`s, and the row that was there at the start, has been followed
by its `REVOKE`. -/
theorem not_has_run (st : ControlStore) (history : List PrincipalStatement) : ¬ (st.run cipher history).Has row ↔
      Runs.Cleared (PrincipalStatement.Grants row) (PrincipalStatement.Revokes row) (st.Has row) history :=
  Runs.not_foldl_iff (P := fun st => st.Has row) has_apply st history

/-! ## Principals -/

/-- A session of the principal: its name, and the roles a login finds for it. -/
def principal (st : ControlStore) (org name : String) : Identity :=
  ((Identity.ofUser name).withOrg org).withRoles (st.listRolesForUser org name)

/-- No role is recorded for the name, and no grant covers its session, be it by the name or by a role. -/
def HoldsNothing (st : ControlStore) (org name : String) : Prop :=
  (st.principal org name).roles = [] ∧ ∀ g ∈ st.persisted, ¬ g.Covers (st.principal org name)

theorem holdsNothing_iff {org name} : st.HoldsNothing org name ↔ ∀ row, row.About org name → ¬ st.Has row := by
  constructor
  · rintro ⟨hr, hgr⟩ row hab hh
    cases row with
    | privilege o record =>
      obtain ⟨rfl, rfl⟩ := hab
      refine hgr _ ⟨(o, record), hh, rfl⟩ ⟨.inr (buildGrant_org o record), .inl ?_⟩
      rw [buildGrant_grantee]
      rfl
    | membership o role user =>
      obtain ⟨rfl, rfl⟩ := hab
      have hm : role ∈ (st.principal o user).roles := mem_listRolesForUser.mpr hh
      rw [hr] at hm
      cases hm
  · intro ha
    have hr : (st.principal org name).roles = [] := by
      refine eq_nil_iff_forall_not_mem.mpr fun role hro => ?_
      exact ha (.membership org role name) ⟨rfl, rfl⟩ (mem_listRolesForUser.mp hro)
    refine ⟨hr, ?_⟩
    rintro g ⟨⟨o, record⟩, hm, rfl⟩ ⟨hc, hg⟩
    rw [buildGrant_org] at hc
    rw [buildGrant_grantee, hr] at hg
    obtain hn | hs := hc
    · cases hn
    · obtain hname | hro := hg
      · exact ha (.privilege o record) ⟨some.inj hs, (some.inj hname).symm⟩ hm
      · cases hro

end ControlStore

structure Principal where
  kind : GranteeKind
  org : String
  name : String
  deriving DecidableEq

namespace PrincipalStatement

variable (cipher : Option SecretCipher) (st : ControlStore)

def outcome (nonce org : String) (ddl : UserDdl) : Option UserOutcome :=
  (UserAdmin.apply cipher nonce st.toMetaStore org ddl).toOption.map Prod.fst

/-- The principal that the statement, if it succeeds, creates. -/
def creates : PrincipalStatement → Option Principal
  | .user nonce org ddl =>
    match ddl, outcome cipher st nonce org ddl with
    | .createUser .., some (.created name) => some ⟨.user, org, name⟩
    | .createRole .., some (.created name) => some ⟨.role, org, name⟩
    | _, _ => none
  | .grant _ => none

def drops : PrincipalStatement → Option Principal
  | .user nonce org ddl =>
    match ddl, outcome cipher st nonce org ddl with
    | .dropUser .., some (.dropped name) => some ⟨.user, org, name⟩
    | .dropRole .., some (.dropped name) => some ⟨.role, org, name⟩
    | _, _ => none
  | .grant _ => none

/-- The statement creates a principal that the history dropped. -/
def Recreates (history : List PrincipalStatement) (p : Principal) (e : PrincipalStatement) : Prop :=
  e.creates cipher (st.run cipher history) = some p ∧
  ∃ before d after, history = before ++ d :: after ∧ d.drops cipher (st.run cipher before) = some p

end PrincipalStatement

namespace ControlStore

variable {cipher : Option SecretCipher} {st : ControlStore}

/-- A principal that is created holds what was granted to its name and not revoked since. -/
theorem created_holdsNothing_iff {history e p} (hc : e.creates cipher (st.run cipher history) = some p) :
    (st.run cipher (history ++ [e])).HoldsNothing p.org p.name ↔ ∀ row, row.About p.org p.name →
        Runs.Cleared (PrincipalStatement.Grants row) (PrincipalStatement.Revokes row) (st.Has row) history := by
  have hr : st.run cipher (history ++ [e]) = (st.run cipher history).apply cipher e := foldl_concat ..
  rw [holdsNothing_iff, hr]
  refine forall_congr' fun row => imp_congr_right fun _ => ?_
  cases e with
  | user nonce org ddl => rw [has_apply_user, not_has_run]
  | grant q => cases hc

/-- Wherever a history creates a principal again, it holds nothing from before, if and only if every `GRANT` to its name
before that, and every row for it at the start, has been followed by its `REVOKE`. -/
theorem recreated_holds_nothing_iff (cipher : Option SecretCipher) (st : ControlStore)
    (history : List PrincipalStatement) :
    (∀ before e after p, history = before ++ e :: after → e.Recreates cipher st before p →
      (st.run cipher (before ++ [e])).HoldsNothing p.org p.name) ↔
    ∀ before e after p, history = before ++ e :: after → e.Recreates cipher st before p →
      ∀ row : GrantRow, row.About p.org p.name →
        Runs.Cleared (PrincipalStatement.Grants row) (PrincipalStatement.Revokes row) (st.Has row) before := by
  constructor
  · intro h before e after p hs hr
    exact (created_holdsNothing_iff hr.1).mp (h before e after p hs hr)
  · intro h before e after p hs hr
    exact (created_holdsNothing_iff hr.1).mpr (h before e after p hs hr)

/-- `alice` is created, is granted a catalog and a role, and is dropped. -/
def grantedAndDropped : List PrincipalStatement :=
  [.user "" "acme" (.createUser "alice" none false false), .grant ⟨"acme", .grantUsage "lake" "alice"⟩,
    .grant ⟨"acme", .grantRole "analyst" "alice"⟩, .user "" "acme" (.dropUser "alice" false)]

def createAgain : PrincipalStatement := .user "" "acme" (.createUser "alice" none false false)

/-- The new `alice` has the grant and the role of the old one. -/
theorem recreated_user_holds_old_grants :
    createAgain.Recreates none .empty grantedAndDropped ⟨.user, "acme", "alice"⟩ ∧
    (ControlStore.empty.run none (grantedAndDropped ++ [createAgain])).listRolesForUser "acme" "alice" = ["analyst"] ∧
    .usage "alice" (some "acme") "lake" ∈ (ControlStore.empty.run none (grantedAndDropped ++ [createAgain])).persisted ∧
    ¬ (ControlStore.empty.run none (grantedAndDropped ++ [createAgain])).HoldsNothing "acme" "alice" := by
  have hr : (ControlStore.empty.run none (grantedAndDropped ++ [createAgain])).listRolesForUser "acme" "alice" =
      ["analyst"] := by decide +kernel
  refine ⟨⟨by decide +kernel, grantedAndDropped.take 3, _, [], rfl, by decide +kernel⟩, hr, ?_, fun h => ?_⟩
  · exact mem_allGrants.mp (by decide +kernel)
  · exact List.cons_ne_nil _ _ (hr.symm.trans h.1)

end ControlStore

end Dataglot
