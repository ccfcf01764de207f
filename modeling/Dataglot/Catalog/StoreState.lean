/-
The state of the control-plane store (`embedded.rs`): for each org its catalogs, secrets,
users, roles, policies, grants, role members and derived products, with the reads and the
writes of `MetaStore` on it.

A map stands for its content. What a read lists of a `BTreeMap` comes in the order of the
names, and what it lists of a `BTreeSet` is given as the set.
-/
import Mathlib
import Dataglot.Core.Json
import Dataglot.Server.GrantAdmin

namespace Dataglot
open Option Finmap Finset

/-! ## Records -/

inductive LiveConnectorKind
  | postgres
  | mysql
  | snowflake
  | oracle
  | objectStorage
  | odata
  | adbc
  | rest
  deriving DecidableEq, Repr

inductive CatalogBinding
  | icebergCache (catalogUrl warehouse : String) (tablePath : List String)
  | liveConnector (kind : LiveConnectorKind) (endpointHint : String)
  | semanticCatalog (dataProductId : String) (underlying : CatalogBinding)
  deriving DecidableEq, Repr

structure PolicyRecord where
  name : String
  kind : String
  deriving DecidableEq, Repr

structure DerivedProductRecord where
  name : String
  sql : String
  catalog : Option String
  schema : Option String
  deriving DecidableEq, Repr

abbrev StoreMap (V : Type) := Finmap fun _ : String => V

namespace EmbeddedMetaStore

/-- A stored catalog: its binding, and the source config if it has one. -/
structure Entry where
  binding : CatalogBinding
  sourceConfig : Option Json

structure OrgState where
  entries : StoreMap Entry
  secrets : StoreMap (List UInt8)
  /-- The protected password and the superuser flag. -/
  users : StoreMap (Option String × Bool)
  roles : Finset String
  /-- Kind and rule. -/
  policies : StoreMap (String × Json)
  grants : Finset GrantRecord
  roleMembers : StoreMap (Finset String)
  derivedProducts : StoreMap DerivedProductRecord

def OrgState.default : OrgState := ⟨∅, ∅, ∅, ∅, ∅, ∅, ∅, ∅⟩

structure State where
  orgs : StoreMap OrgState

/-! ## Fields of an org -/

/-- A field that is read and written on its own. -/
structure Field (A : Type) [EmptyCollection A] where
  get : OrgState → A
  set : A → OrgState → OrgState
  get_set : ∀ a o, get (set a o) = a
  set_get : ∀ o, set (get o) o = o
  get_default : get .default = ∅

namespace Field

def entries : Field (StoreMap Entry) :=
  ⟨OrgState.entries, fun entries o => { o with entries }, fun _ _ => rfl, fun _ => rfl, rfl⟩

def secrets : Field (StoreMap (List UInt8)) :=
  ⟨OrgState.secrets, fun secrets o => { o with secrets }, fun _ _ => rfl, fun _ => rfl, rfl⟩

def users : Field (StoreMap (Option String × Bool)) :=
  ⟨OrgState.users, fun users o => { o with users }, fun _ _ => rfl, fun _ => rfl, rfl⟩

def roles : Field (Finset String) :=
  ⟨OrgState.roles, fun roles o => { o with roles }, fun _ _ => rfl, fun _ => rfl, rfl⟩

def policies : Field (StoreMap (String × Json)) :=
  ⟨OrgState.policies, fun policies o => { o with policies }, fun _ _ => rfl, fun _ => rfl, rfl⟩

def grants : Field (Finset GrantRecord) :=
  ⟨OrgState.grants, fun grants o => { o with grants }, fun _ _ => rfl, fun _ => rfl, rfl⟩

def roleMembers : Field (StoreMap (Finset String)) :=
  ⟨OrgState.roleMembers, fun roleMembers o => { o with roleMembers }, fun _ _ => rfl, fun _ => rfl, rfl⟩

def derivedProducts : Field (StoreMap DerivedProductRecord) :=
  ⟨OrgState.derivedProducts, fun derivedProducts o => { o with derivedProducts }, fun _ _ => rfl, fun _ => rfl, rfl⟩

end Field

namespace State

section Fields

variable {A V : Type} [EmptyCollection A] (s : State)

/-- A field of an org, empty for an org that is not known. -/
def field (F : Field A) (org : String) : A := F.get ((s.orgs.lookup org).getD .default)

/-- A field of an org is written. With `org_mut`, an org comes into being with its first write. -/
def update (F : Field A) (org : String) (f : A → A) : State :=
  let o := (s.orgs.lookup org).getD .default
  ⟨s.orgs.insert org (F.set (f (F.get o)) o)⟩

def find (F : Field (StoreMap V)) (org name : String) : Option V := (s.field F org).lookup name

def listed (F : Field (StoreMap V)) (org : String) : List (String × V) :=
  ((s.field F org).keys.sort (· ≤ ·)).filterMap fun name => (s.find F org name).map fun v => (name, v)

def put (F : Field (StoreMap V)) (org name : String) (v : V) : State := s.update F org fun m => m.insert name v

/-- Removes what is there, and says whether there was anything. -/
def remove (F : Field (StoreMap V)) (org name : String) : State × Bool :=
  if (s.find F org name).isSome then (s.update F org fun m => m.erase name, true) else (s, false)

end Fields

section Sets

variable {A : Type} [DecidableEq A] (s : State)

def add (F : Field (Finset A)) (org : String) (a : A) : State := s.update F org fun m => insert a m

def discard (F : Field (Finset A)) (org : String) (a : A) : State × Bool :=
  if a ∈ s.field F org then (s.update F org fun m => m.erase a, true) else (s, false)

end Sets

/-! ## Writes -/

variable (s : State) (org : String)

/-- `upsert_binding`. The source config stays. -/
def upsertBinding (name : String) (binding : CatalogBinding) : State × Option CatalogBinding :=
  match s.find .entries org name with
  | some e => (s.put .entries org name { e with binding }, some e.binding)
  | none => (s.put .entries org name ⟨binding, none⟩, none)

/-- `set_source_config`, and whether there is a binding to set it for. -/
def setSourceConfig (name : String) (sourceConfig : Json) : State × Bool :=
  match s.find .entries org name with
  | some e => (s.put .entries org name { e with sourceConfig := some sourceConfig }, true)
  | none => (s, false)

def deleteBinding (name : String) : State × Bool := s.remove .entries org name

def putSecret (name : String) (ciphertext : List UInt8) : State := s.put .secrets org name ciphertext

def deleteSecret (name : String) : State × Bool := s.remove .secrets org name

def putUser (name : String) (passwordHash : Option String) (isSuperuser : Bool) : State :=
  s.put .users org name (passwordHash, isSuperuser)

def deleteUser (name : String) : State × Bool := s.remove .users org name

def putRole (name : String) : State := s.add .roles org name

def deleteRole (name : String) : State × Bool := s.discard .roles org name

def putPolicy (name kind : String) (rule : Json) : State := s.put .policies org name (kind, rule)

def deletePolicy (name : String) : State × Bool := s.remove .policies org name

def putGrant (grant : GrantRecord) : State := s.add .grants org grant

def deleteGrant (grant : GrantRecord) : State × Bool := s.discard .grants org grant

def putDerivedProduct (product : DerivedProductRecord) : State := s.put .derivedProducts org product.name product

def deleteDerivedProduct (name : String) : State × Bool := s.remove .derivedProducts org name

def addRoleMember (role user : String) : State :=
  s.put .roleMembers org role (insert user ((s.find .roleMembers org role).getD ∅))

/-- `remove_role_member`. A role without members loses its entry. -/
def removeRoleMember (role user : String) : State × Bool :=
  match s.find .roleMembers org role with
  | some members =>
    if user ∈ members then
      if members.erase user = ∅ then ((s.remove .roleMembers org role).1, true)
      else (s.put .roleMembers org role (members.erase user), true)
    else (s, false)
  | none => (s, false)

end State

/-! ## Reads -/

inductive Read
  | listSourceConfigs (org : String)
  | listBindings (org : String)
  | getSecret (org name : String)
  | listSecretNames (org : String)
  | getUser (org name : String)
  | findUser (name : String)
  | listUsers (org : String)
  | listRoles (org : String)
  | getPolicy (org name : String)
  | listPolicies (org : String)
  | listGrants (org : String)
  | getDerivedProduct (org name : String)
  | listDerivedProducts (org : String)
  | listRolesForUser (org user : String)
  | listRoleMembers (org role : String)
  | listOrgs

/-- What a read returns; the `HashMap`s by what they have under a name. -/
abbrev Read.Reply : Read → Type
  | listSourceConfigs _ => String → Option Json
  | listBindings _ => String → Option CatalogBinding
  | getSecret _ _ => Option (List UInt8)
  | listSecretNames _ => List String
  | getUser _ _ => Option (UserRecord × Option String)
  | findUser _ => Option (String × UserRecord × Option String)
  | listUsers _ => List UserRecord
  | listRoles _ => List String
  | getPolicy _ _ => Option (String × Json)
  | listPolicies _ => List PolicyRecord
  | listGrants _ => Finset GrantRecord
  | getDerivedProduct _ _ => Option DerivedProductRecord
  | listDerivedProducts _ => List DerivedProductRecord
  | listRolesForUser _ _ => List String
  | listRoleMembers _ _ => List String
  | listOrgs => List String

def State.getUser (s : State) (org name : String) : Option (UserRecord × Option String) :=
  (s.find .users org name).map fun (hash, isSuperuser) => (⟨name, isSuperuser⟩, hash)

def State.listOrgs (s : State) : List String := s.orgs.keys.sort (· ≤ ·)

def State.read (s : State) : (r : Read) → r.Reply
  | .listSourceConfigs org => fun name => (s.find .entries org name).bind (·.sourceConfig)
  | .listBindings org => fun name => (s.find .entries org name).map (·.binding)
  | .getSecret org name => s.find .secrets org name
  | .listSecretNames org => (s.listed .secrets org).map Prod.fst
  | .getUser org name => s.getUser org name
  | .findUser name => s.listOrgs.findSome? fun org =>
    (s.getUser org name).map fun (record, hash) => (org, record, hash)
  | .listUsers org => (s.listed .users org).map fun (name, _, isSuperuser) => ⟨name, isSuperuser⟩
  | .listRoles org => (s.field .roles org).sort (· ≤ ·)
  | .getPolicy org name => s.find .policies org name
  | .listPolicies org => (s.listed .policies org).map fun (name, kind, _) => ⟨name, kind⟩
  | .listGrants org => s.field .grants org
  | .getDerivedProduct org name => s.find .derivedProducts org name
  | .listDerivedProducts org => (s.listed .derivedProducts org).map Prod.snd
  | .listRolesForUser org user =>
    ((s.listed .roleMembers org).filter fun (_, members) => user ∈ members).map Prod.fst
  | .listRoleMembers org role => ((s.find .roleMembers org role).getD ∅).sort (· ≤ ·)
  | .listOrgs => s.listOrgs

/-! ## Fields after a write -/

namespace State

section Fields

variable {A V : Type} [EmptyCollection A] {s : State} {org : String}

@[simp] theorem field_update (F) (f : A → A) (org') :
    (s.update F org f).field F org' = if org' = org then f (s.field F org) else s.field F org' := by
  unfold update field
  split_ifs with h
  · rw [h, lookup_insert, getD_some, F.get_set]
  · rw [lookup_insert_of_ne _ h]

theorem update_eq_self {F} {f : A → A} (hs : f (s.field F org) = s.field F org)
    (hne : s.field F org ≠ ∅) : s.update F org f = s := by
  cases ho : s.orgs.lookup org with
  | none =>
    unfold field at hne
    rw [ho] at hne
    exact absurd F.get_default hne
  | some o =>
    unfold field at hs
    unfold update
    rw [ho, getD_some] at hs
    dsimp only
    rw [ho, getD_some, hs, F.set_get]
    congr 1
    refine ext_lookup fun org' => ?_
    by_cases h : org' = org
    · rw [h, lookup_insert, ho]
    · rw [lookup_insert_of_ne _ h]

variable (F : Field (StoreMap V))

theorem find_put (name) (v : V) (org' name') :
    (s.put F org name v).find F org' name' = if org' = org ∧ name' = name then some v else s.find F org' name' := by
  unfold find put
  rw [field_update]
  by_cases ho : org' = org
  · by_cases hname : name' = name
    · subst hname
      simp [ho]
    · simp [ho, hname, lookup_insert_of_ne]
  · simp [ho]

variable {F : Field (StoreMap V)} {name : String}

theorem put_eq_self {v : V} (h : s.find F org name = some v) : s.put F org name v = s := by
  refine update_eq_self (ext_lookup fun name' => ?_) fun he => ?_
  · by_cases hname : name' = name
    · rw [hname, lookup_insert]
      exact h.symm
    · rw [lookup_insert_of_ne _ hname]
  · rw [find, he, lookup_empty] at h
    cases h

theorem remove_of_find (h : (s.find F org name).isSome) :
    s.remove F org name = (s.update F org fun m => m.erase name, true) := if_pos h

theorem remove_of_find_none (h : s.find F org name = none) : s.remove F org name = (s, false) := by
  rw [remove, h]
  rfl

theorem find_remove (name org' name') : (s.remove F org name).1.find F org' name' =
      if org' = org ∧ name' = name then none else s.find F org' name' := by
  cases hf : s.find F org name with
  | none =>
    rw [remove_of_find_none hf]
    split_ifs with h
    · rw [h.1, h.2, hf]
    · rfl
  | some v =>
    rw [remove_of_find (by rw [hf]; rfl)]
    unfold find
    rw [field_update]
    by_cases ho : org' = org
    · by_cases hname : name' = name
      · subst hname
        simp [ho]
      · simp [ho, hname, lookup_erase_ne]
    · simp [ho]

theorem remove_snd (name) : (s.remove F org name).2 = (s.find F org name).isSome := by
  unfold remove
  split_ifs with h
  · exact h.symm
  · exact (Bool.eq_false_iff.mpr h).symm

end Fields

section Sets

variable {A : Type} [DecidableEq A] {s : State} {org : String} {F : Field (Finset A)} {a : A}

theorem add_eq_self (h : a ∈ s.field F org) : s.add F org a = s :=
  update_eq_self (insert_eq_of_mem h) (ne_empty_of_mem h)

theorem mem_field_add : a ∈ (s.add F org a).field F org := by
  rw [add, field_update, if_pos rfl]
  exact mem_insert_self a _

theorem notMem_field_discard : a ∉ (s.discard F org a).1.field F org := by
  unfold discard
  split_ifs with h
  · rw [field_update, if_pos rfl]
    exact notMem_erase a _
  · exact h

theorem discard_snd : (s.discard F org a).2 = decide (a ∈ s.field F org) := by
  unfold discard
  split_ifs with h <;> simp [h]

end Sets

section Entries

variable {s : State} {org name : String}

theorem find_upsertBinding (binding) (org' name') :
    (s.upsertBinding org name binding).1.find .entries org' name' =
      if org' = org ∧ name' = name then some ⟨binding, (s.find .entries org name).bind (·.sourceConfig)⟩
      else s.find .entries org' name' := by
  unfold upsertBinding
  cases s.find .entries org name <;> exact find_put ..

theorem find_setSourceConfig (config) (org' name') :
    (s.setSourceConfig org name config).1.find .entries org' name' =
      if org' = org ∧ name' = name then (s.find .entries org name).map fun e => { e with sourceConfig := some config }
      else s.find .entries org' name' := by
  unfold setSourceConfig
  cases hf : s.find .entries org name with
  | none =>
    dsimp only [map_none]
    split_ifs with h
    · rw [h.1, h.2, hf]
    · rfl
  | some e => exact find_put ..

theorem setSourceConfig_snd (config) :
    (s.setSourceConfig org name config).2 = (s.find .entries org name).isSome := by
  unfold setSourceConfig
  cases s.find .entries org name <;> rfl

end Entries

section RoleMembers

variable {s : State} {org role user : String}

theorem addRoleMember_eq_self (h : user ∈ (s.find .roleMembers org role).getD ∅) :
    s.addRoleMember org role user = s := by
  unfold addRoleMember
  cases hf : s.find .roleMembers org role with
  | none =>
    rw [hf] at h
    exact absurd h (notMem_empty user)
  | some members =>
    rw [hf, getD_some] at h
    rw [getD_some, insert_eq_of_mem h]
    exact put_eq_self hf

theorem mem_addRoleMember : user ∈ ((s.addRoleMember org role user).find .roleMembers org role).getD ∅ := by
  rw [addRoleMember, find_put, if_pos ⟨rfl, rfl⟩, getD_some]
  exact mem_insert_self user _

theorem removeRoleMember_snd :
    (s.removeRoleMember org role user).2 = decide (user ∈ (s.find .roleMembers org role).getD ∅) := by
  unfold removeRoleMember
  cases s.find .roleMembers org role with
  | none => simp
  | some members =>
    dsimp only [getD_some]
    split_ifs with hu <;> simp [hu]

theorem notMem_removeRoleMember :
    user ∉ ((s.removeRoleMember org role user).1.find .roleMembers org role).getD ∅ := by
  unfold removeRoleMember
  cases hf : s.find .roleMembers org role with
  | none => simp [hf]
  | some members =>
    dsimp only
    split_ifs with hu hlast
    · simp [find_remove]
    · simp [find_put]
    · simp [hf, hu]

end RoleMembers

/-! ## What the reads show -/

/-- The same in every field, up to roles without members. -/
structure SameFields (s' s : State) : Prop where
  entries : ∀ org name, s'.find .entries org name = s.find .entries org name
  secrets : ∀ org name, s'.find .secrets org name = s.find .secrets org name
  users : ∀ org name, s'.find .users org name = s.find .users org name
  roles : ∀ org, s'.field .roles org = s.field .roles org
  policies : ∀ org name, s'.find .policies org name = s.find .policies org name
  grants : ∀ org, s'.field .grants org = s.field .grants org
  roleMembers : ∀ org role, (s'.find .roleMembers org role).getD ∅ = (s.find .roleMembers org role).getD ∅
  derivedProducts : ∀ org name, s'.find .derivedProducts org name = s.find .derivedProducts org name

theorem eq_of_sort_eq {a b : Finset String} (h : a.sort (· ≤ ·) = b.sort (· ≤ ·)) : a = b := by
  rw [← a.sort_toFinset (· ≤ ·), h, b.sort_toFinset]

theorem sameFields_of_reads {s' s} (h : ∀ r, s'.read r = s.read r) : SameFields s' s where
  entries := by
    intro org name
    have hb : (s'.find .entries org name).map (·.binding) = (s.find .entries org name).map (·.binding) :=
      congrFun (h (.listBindings org)) name
    have hc :
        (s'.find .entries org name).bind (·.sourceConfig) = (s.find .entries org name).bind (·.sourceConfig) :=
      congrFun (h (.listSourceConfigs org)) name
    cases hf' : s'.find .entries org name with
    | none =>
      rw [hf'] at hb
      exact (map_eq_none_iff.mp hb.symm).symm
    | some e' =>
      cases hf : s.find .entries org name with
      | none =>
        rw [hf, hf'] at hb
        cases hb
      | some e =>
        rw [hf, hf'] at hb hc
        obtain ⟨binding', config'⟩ := e'
        obtain ⟨binding, config⟩ := e
        cases hb
        cases hc
        rfl
  secrets := fun org name => h (.getSecret org name)
  users := by
    intro org name
    refine map_injective (fun u u' hu => ?_) (h (.getUser org name))
    exact Prod.ext (congrArg Prod.snd hu) (congrArg (fun x => x.1.isSuperuser) hu)
  roles := fun org => eq_of_sort_eq (h (.listRoles org))
  policies := fun org name => h (.getPolicy org name)
  grants := fun org => h (.listGrants org)
  roleMembers := fun org role => eq_of_sort_eq (h (.listRoleMembers org role))
  derivedProducts := fun org name => h (.getDerivedProduct org name)

end State

end EmbeddedMetaStore

end Dataglot
