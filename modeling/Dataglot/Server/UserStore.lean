/-
The users and roles of the control plane (`embedded.rs`) and the statements that
change them (`StoreUserAdmin` in `user_admin.rs`). The store keeps users per org;
what makes a username lead to one org is the check `CREATE USER` makes before it
writes. `Reachable.unique` is that this check is enough: no run of statements,
under any orgs, leaves a username in two orgs.
-/
import Dataglot.Pgwire.ControlPlaneDdl

namespace Dataglot
open Option AList

/-! ## The store -/

structure UserRecord where
  name : String
  isSuperuser : Bool
  deriving DecidableEq, Repr

/-- `OrgState`: users with their protected password and superuser flag, role names, role members. -/
structure OrgState where
  users : HashMap (Option String × Bool)
  roles : List String
  roleMembers : HashMap (List String)

def OrgState.empty : OrgState := ⟨∅, [], ∅⟩

/-- The part of `EmbeddedMetaStore` that logins read. -/
structure MetaStore where
  orgs : HashMap OrgState

namespace MetaStore

def empty : MetaStore := ⟨∅⟩

variable (st : MetaStore)

/-- `org_mut`: an org comes into being with its first write. -/
def modifyOrg (org : String) (f : OrgState → OrgState) : MetaStore :=
  ⟨st.orgs.insert org (f ((st.orgs.lookup org).getD .empty))⟩

def getUser (org name : String) : Option (UserRecord × Option String) := do
  let o ← st.orgs.lookup org
  let (hash, isSuperuser) ← o.users.lookup name
  return (⟨name, isSuperuser⟩, hash)

/-- `find_user`: the first org, by name, that has the user. -/
def findUser (name : String) : Option (String × UserRecord × Option String) :=
  (st.orgs.keys.insertionSort (· ≤ ·)).findSome? fun org =>
    (st.getUser org name).map fun (record, hash) => (org, record, hash)

def putUser (org name : String) (hash : Option String) (isSuperuser : Bool) : MetaStore :=
  st.modifyOrg org fun o => { o with users := o.users.insert name (hash, isSuperuser) }

/-- `delete_user`. The user's role memberships stay. -/
def deleteUser (org name : String) : MetaStore × Bool :=
  if (st.getUser org name).isSome then
    (st.modifyOrg org fun o => { o with users := o.users.erase name }, true)
  else (st, false)

def listRoles (org : String) : List String :=
  ((st.orgs.lookup org).map fun o => o.roles.insertionSort (· ≤ ·)).getD []

def putRole (org name : String) : MetaStore :=
  st.modifyOrg org fun o => { o with roles := o.roles.insert name }

def deleteRole (org name : String) : MetaStore × Bool :=
  if name ∈ st.listRoles org then
    (st.modifyOrg org fun o => { o with roles := o.roles.filter (· ≠ name) }, true)
  else (st, false)

/-- `list_roles_for_user`, sorted as the `BTreeMap` of members iterates. -/
def listRolesForUser (org user : String) : List String :=
  ((st.orgs.lookup org).map fun o =>
    (o.roleMembers.keys.insertionSort (· ≤ ·)).filter fun role =>
      ((o.roleMembers.lookup role).getD []).contains user).getD []

def addRoleMember (org role user : String) : MetaStore :=
  st.modifyOrg org fun o =>
    { o with roleMembers := o.roleMembers.insert role (((o.roleMembers.lookup role).getD []).insert user) }

/-- `remove_role_member`. A role without members loses its entry. -/
def removeRoleMember (org role user : String) : MetaStore × Bool :=
  match (st.orgs.lookup org).bind fun o => o.roleMembers.lookup role with
  | none => (st, false)
  | some members =>
    if members.contains user then
      let members := members.filter (· ≠ user)
      (st.modifyOrg org fun o =>
        { o with roleMembers := if members.isEmpty then o.roleMembers.erase role
                                else o.roleMembers.insert role members }, true)
    else (st, false)

end MetaStore

/-! ## The statements -/

/-- `SecretCipher` with the base64 envelope around it. A stored password is its ciphertext under a
fresh nonce; decrypting it gives the password back. -/
structure SecretCipher where
  encrypt : String → String → String
  decrypt : String → Option String
  decrypt_encrypt : ∀ nonce password, decrypt (encrypt nonce password) = some password

inductive UserOutcome
  | created (name : String)
  | altered (name : String)
  | dropped (name : String)
  | noOp
  deriving DecidableEq, Repr

inductive UserAdminError
  | notConfigured
  | alreadyExists (name : String)
  | notFound (name : String)
  deriving DecidableEq, Repr

namespace UserAdmin

variable (cipher : Option SecretCipher)

/-- `StoreUserAdmin::protect`: setting a password takes a cipher. -/
def protect (nonce password : String) : Except UserAdminError String :=
  match cipher with
  | none => .error .notConfigured
  | some C => .ok (C.encrypt nonce password)

def createUser (nonce : String) (st : MetaStore) (org name : String)
    (password : Option String) (superuser ifNotExists : Bool) : Except UserAdminError (UserOutcome × MetaStore) :=
  if (st.getUser org name).isSome then
    if ifNotExists then .ok (.noOp, st) else .error (.alreadyExists name)
  else if (st.findUser name).isSome then
    -- The name is another org's, which `IF NOT EXISTS` does not make this org's.
    .error (.alreadyExists name)
  else
    match password with
    | none => .ok (.created name, st.putUser org name none superuser)
    | some pw => do
      let hash ← protect cipher nonce pw
      return (.created name, st.putUser org name (some hash) superuser)

def apply (nonce : String) (st : MetaStore) (org : String) (ddl : UserDdl) :
    Except UserAdminError (UserOutcome × MetaStore) :=
  match ddl with
  | .createUser name password superuser ifNotExists =>
    createUser cipher nonce st org name password superuser ifNotExists
  | .alterUserPassword name password =>
    match st.getUser org name with
    | none => .error (.notFound name)
    | some (record, _) => do
      let hash ← protect cipher nonce password
      return (.altered name, st.putUser org name (some hash) record.isSuperuser)
  | .dropUser name ifExists =>
    let (st', removed) := st.deleteUser org name
    if removed then .ok (.dropped name, st')
    else if ifExists then .ok (.noOp, st) else .error (.notFound name)
  | .createRole name ifNotExists =>
    if name ∈ st.listRoles org then
      if ifNotExists then .ok (.noOp, st) else .error (.alreadyExists name)
    else .ok (.created name, st.putRole org name)
  | .dropRole name ifExists =>
    let (st', removed) := st.deleteRole org name
    if removed then .ok (.dropped name, st')
    else if ifExists then .ok (.noOp, st) else .error (.notFound name)

end UserAdmin

/-- One write to the store: a statement that succeeds, of whatever org, or a role membership granted
or revoked. A statement that fails leaves the store as it was. -/
inductive StoreStep (cipher : Option SecretCipher) : MetaStore → MetaStore → Prop
  | ddl {st st' nonce org stmt outcome} :
      UserAdmin.apply cipher nonce st org stmt = .ok (outcome, st') → StoreStep cipher st st'
  | grantRole {st org role user} : StoreStep cipher st (st.addRoleMember org role user)
  | revokeRole {st org role user} : StoreStep cipher st (st.removeRoleMember org role user).1

/-- The stores a run of writes leads to. -/
inductive Reachable (cipher : Option SecretCipher) : MetaStore → Prop
  | init : Reachable cipher .empty
  | step {st st'} : Reachable cipher st → StoreStep cipher st st' → Reachable cipher st'

/-! ## What a write does to the users -/

namespace MetaStore

variable {st : MetaStore}

theorem getUser_modifyOrg (org f o u) :
    (st.modifyOrg org f).getUser o u = if o = org then
      ((f ((st.orgs.lookup org).getD .empty)).users.lookup u).map fun (hash, su) => (⟨u, su⟩, hash)
      else st.getUser o u := by
  unfold getUser modifyOrg
  split_ifs with ho
  · subst ho
    simp only [lookup_insert, bind_eq_bind, bind_some]
    cases lookup u _ <;> rfl
  · simp only [lookup_insert_ne ho]

theorem getUser_eq_lookup (o u) :
    st.getUser o u = (((st.orgs.lookup o).getD .empty).users.lookup u).map fun (hash, su) => (⟨u, su⟩, hash) := by
  unfold getUser
  cases st.orgs.lookup o with
  | none => rfl
  | some org =>
    simp only [bind_eq_bind, bind_some, getD_some]
    cases lookup u org.users <;> rfl

variable {hash : Option String} {record : UserRecord} {name org : String}

theorem getUser_name {o u} (h : st.getUser o u = some (record, hash)) : record.name = u := by
  rw [getUser_eq_lookup] at h
  obtain ⟨⟨_, su⟩, -, heq⟩ := map_eq_some_iff.mp h
  cases heq
  rfl

theorem getUser_modifyOrg_of_users (org) {f} (hf : ∀ s, (f s).users = s.users)
    (o u) : (st.modifyOrg org f).getUser o u = st.getUser o u := by
  rw [getUser_modifyOrg, hf]
  split_ifs with ho
  · rw [ho, getUser_eq_lookup]
  · rfl

theorem getUser_putUser (org name) (hash : Option String) (su o u) :
    (st.putUser org name hash su).getUser o u =
      if o = org ∧ u = name then some (⟨name, su⟩, hash) else st.getUser o u := by
  rw [putUser, getUser_modifyOrg]
  by_cases ho : o = org
  · subst ho
    by_cases hu : u = name
    · subst hu
      simp
    · simp [lookup_insert_ne hu, getUser_eq_lookup, hu]
  · simp [ho]

theorem getUser_deleteUser (org name o u) :
    (st.deleteUser org name).1.getUser o u = if o = org ∧ u = name then none else st.getUser o u := by
  unfold deleteUser
  split_ifs with hs ho ho
  · obtain ⟨rfl, rfl⟩ := ho
    simp [getUser_modifyOrg]
  · rw [getUser_modifyOrg]
    split_ifs with hor
    · have hu : u ≠ name := fun hu => ho ⟨hor, hu⟩
      rw [hor, lookup_erase_ne hu, getUser_eq_lookup]
    · rfl
  · obtain ⟨rfl, rfl⟩ := ho
    simpa using hs
  · rfl

theorem isSome_of_findUser
    (h : st.findUser name = some (org, record, hash)) : st.getUser org name = some (record, hash) := by
  obtain ⟨o, -, ho⟩ := List.exists_of_findSome?_eq_some h
  obtain ⟨⟨r, h'⟩, hg, heq⟩ := map_eq_some_iff.mp ho
  obtain ⟨rfl, rfl, rfl⟩ : o = org ∧ r = record ∧ h' = hash := by simpa using heq
  exact hg

theorem mem_keys_of_getUser (h : (st.getUser org name).isSome) : org ∈ st.orgs.keys := by
  rw [← mem_keys, ← lookup_isSome]
  unfold getUser at h
  cases hl : st.orgs.lookup org with
  | none => simp [hl] at h
  | some o => rfl

theorem findUser_eq_none : st.findUser name = none ↔ ∀ org, st.getUser org name = none := by
  unfold findUser
  rw [List.findSome?_eq_none_iff]
  simp only [List.mem_insertionSort, map_eq_none_iff]
  refine ⟨fun h org => ?_, fun h org _ => h org⟩
  by_contra hne
  exact hne (h org (mem_keys_of_getUser (isSome_iff_ne_none.mpr hne)))

/-- No username stands in two orgs. -/
def Unique (st : MetaStore) : Prop :=
  ∀ o₁ o₂ u, (st.getUser o₁ u).isSome → (st.getUser o₂ u).isSome → o₁ = o₂

theorem Unique.findUser (hu : st.Unique) :
    st.findUser name = some (org, record, hash) ↔ st.getUser org name = some (record, hash) := by
  refine ⟨isSome_of_findUser, fun hg => ?_⟩
  cases hf : st.findUser name with
  | none => rw [findUser_eq_none.mp hf org] at hg; cases hg
  | some found =>
    obtain ⟨o, r, h⟩ := found
    have hg' := isSome_of_findUser hf
    obtain rfl : o = org := hu o org name (by rw [hg']; rfl) (by rw [hg]; rfl)
    rw [hg'] at hg
    cases hg
    rfl

end MetaStore

/-- What one write can do to the users of all orgs: nothing, write the entry of a name that is this
org's already or nobody's, or remove an entry. -/
inductive UserEffect (st st' : MetaStore) : Prop
  | keep : (∀ o u, st'.getUser o u = st.getUser o u) → UserEffect st st'
  | put (org name : String) (entry : UserRecord × Option String) :
      ((st.getUser org name).isSome ∨ ∀ o, st.getUser o name = none) →
      (∀ o u, st'.getUser o u = if o = org ∧ u = name then some entry else st.getUser o u) →
      UserEffect st st'
  | drop (org name : String) :
      (∀ o u, st'.getUser o u = if o = org ∧ u = name then none else st.getUser o u) → UserEffect st st'

section Effects

variable {cipher : Option SecretCipher} {nonce org : String} {st st' : MetaStore} {outcome : UserOutcome}

theorem createUser_effect {name password superuser ifNotExists}
    (h : UserAdmin.createUser cipher nonce st org name password superuser ifNotExists = .ok (outcome, st')) :
    UserEffect st st' := by
  unfold UserAdmin.createUser at h
  split_ifs at h with hget hine hfi
  · cases h
    exact .keep fun _ _ => rfl
  · have hf : ∀ o, st.getUser o name = none :=
      MetaStore.findUser_eq_none.mp (not_isSome_iff_eq_none.mp hfi)
    cases password with
    | none =>
      cases h
      exact .put org name _ (.inr hf) (MetaStore.getUser_putUser org name none superuser)
    | some pw =>
      obtain ⟨hash, -, h⟩ := Except.bind_ok_iff.mp h
      cases h
      exact .put org name _ (.inr hf) (MetaStore.getUser_putUser org name (some hash) superuser)

theorem apply_effect {stmt} (h : UserAdmin.apply cipher nonce st org stmt = .ok (outcome, st')) :
    UserEffect st st' := by
  cases stmt with
  | createUser name password superuser ifNotExists => exact createUser_effect h
  | alterUserPassword name password =>
    simp only [UserAdmin.apply] at h
    split at h
    · cases h
    next record old hg =>
      obtain ⟨hash, -, h⟩ := Except.bind_ok_iff.mp h
      cases h
      exact .put org name _ (.inl (by rw [hg]; rfl)) (MetaStore.getUser_putUser org name _ _)
  | dropUser name ifExists =>
    simp only [UserAdmin.apply] at h
    split_ifs at h with hr hif <;> cases h
    · exact .drop org name (MetaStore.getUser_deleteUser org name)
    · exact .keep fun _ _ => rfl
  | createRole name ifNotExists =>
    simp only [UserAdmin.apply] at h
    split_ifs at h <;> cases h
    · exact .keep fun _ _ => rfl
    · exact .keep (MetaStore.getUser_modifyOrg_of_users org fun _ => rfl)
  | dropRole name ifExists =>
    simp only [UserAdmin.apply] at h
    split_ifs at h with hr hif <;> cases h
    · unfold MetaStore.deleteRole at hr ⊢
      split_ifs at hr ⊢
      exact .keep (MetaStore.getUser_modifyOrg_of_users org fun _ => rfl)
    · exact .keep fun _ _ => rfl

theorem StoreStep.effect (h : StoreStep cipher st st') : UserEffect st st' := by
  cases h with
  | ddl h => exact apply_effect h
  | grantRole => exact .keep (MetaStore.getUser_modifyOrg_of_users _ fun _ => rfl)
  | revokeRole =>
    refine .keep fun o u => ?_
    unfold MetaStore.removeRoleMember
    split
    · rfl
    · split_ifs
      · refine MetaStore.getUser_modifyOrg_of_users _ ?_ o u
        intro s
        rfl
      · rfl

theorem UserEffect.unique (h : UserEffect st st') (hu : st.Unique) : st'.Unique := by
  intro o₁ o₂ u h₁ h₂
  cases h with
  | keep heq => exact hu o₁ o₂ u (heq o₁ u ▸ h₁) (heq o₂ u ▸ h₂)
  | drop org name heq =>
    rw [heq] at h₁ h₂
    split_ifs at h₁ with c₁
    · cases h₁
    split_ifs at h₂ with c₂
    · cases h₂
    exact hu o₁ o₂ u h₁ h₂
  | put org name entry ho heq =>
    rw [heq] at h₁ h₂
    split_ifs at h₁ h₂ with c₁ c₂ c₂
    · rw [c₁.1, c₂.1]
    · -- the name was written under `org` and stands under `o₂`: `org` had it before, or nobody did
      obtain ⟨rfl, rfl⟩ := c₁
      rcases ho with ho | hn
      · exact hu _ _ _ ho h₂
      · rw [hn] at h₂; cases h₂
    · obtain ⟨rfl, rfl⟩ := c₂
      rcases ho with ho | hn
      · exact hu _ _ _ h₁ ho
      · rw [hn] at h₁; cases h₁
    · exact hu o₁ o₂ u h₁ h₂

/-- **Usernames are unique across orgs** in every store that statements lead to. -/
theorem Reachable.unique (h : Reachable cipher st) : st.Unique := by
  induction h with
  | init => intro o₁ o₂ u h₁; cases h₁
  | step _ hstep ih => exact hstep.effect.unique ih

end Effects

end Dataglot
