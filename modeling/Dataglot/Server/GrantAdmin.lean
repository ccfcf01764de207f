/-
`GRANT` and `REVOKE` (`grant_admin.rs`) over the control-plane store (`redb_store.rs`).
In grant mode a statement writes its row, reads the grants of all orgs back, and publishes
them to the live enforcer. Each of these steps is an operation of its own: a store call runs
on another thread, and the statements of other sessions go on before this one is woken up.
-/
import Dataglot.Library.Programs
import Dataglot.Policy.Grant
import Dataglot.Server.UserStore

namespace Dataglot
open Programs

/-! ## Stored grants -/

inductive GranteeKind
  | user
  | role
  deriving DecidableEq, Repr

inductive GrantOn
  | select (catalog schema table : String)
  | usage (catalog : String)
  deriving DecidableEq, Repr

structure GrantRecord where
  granteeKind : GranteeKind
  grantee : String
  grantOn : GrantOn
  deriving DecidableEq, Repr

namespace GrantRecord

def select (kind : GranteeKind) (grantee catalog schema table : String) : GrantRecord :=
  ⟨kind, grantee, .select catalog schema table⟩

def usage (kind : GranteeKind) (grantee catalog : String) : GrantRecord :=
  ⟨kind, grantee, .usage catalog⟩

def object (record : GrantRecord) : GrantObject :=
  match record.grantOn with
  | .select catalog schema table => .table catalog schema table
  | .usage catalog => .catalog catalog

end GrantRecord

/-- `build_grant`: the grant as the enforcer has it, with its org and without the kind of its grantee. -/
def buildGrant (org : String) (record : GrantRecord) : Grant :=
  match record.object with
  | .catalog catalog => .usage record.grantee (some org) catalog
  | .table catalog schema table => .select record.grantee (some org) catalog schema table

@[simp] theorem buildGrant_org (org record) : (buildGrant org record).org = some org := by
  obtain ⟨kind, grantee, (_ | _)⟩ := record <;> rfl

@[simp] theorem buildGrant_grantee (org record) :
    (buildGrant org record).grantee = record.grantee := by
  obtain ⟨kind, grantee, (_ | _)⟩ := record <;> rfl

theorem buildGrant_eq_iff {org org' record record'} : buildGrant org record = buildGrant org' record' ↔
      org = org' ∧ record.grantee = record'.grantee ∧ record.grantOn = record'.grantOn := by
  obtain ⟨kind, grantee, on₁⟩ := record
  obtain ⟨kind', grantee', on₂⟩ := record'
  cases on₁ <;> cases on₂ <;> simp [buildGrant, GrantRecord.object, Grant.usage, Grant.select] <;> grind

/-! ## The store -/

/-- `RedbMetaStore`: the users and roles of the orgs, the table of grants, and the orgs that own objects of other
kinds (catalog entries, secrets, policies, products). -/
structure ControlStore extends MetaStore where
  grants : List (String × GrantRecord)
  otherOrgs : List String

def OrgState.ownsAny (o : OrgState) : Bool :=
  !o.users.entries.isEmpty || !o.roles.isEmpty || !o.roleMembers.entries.isEmpty

namespace ControlStore

def empty : ControlStore := ⟨.empty, [], []⟩

variable (st : ControlStore)

def putGrant (org : String) (grant : GrantRecord) : ControlStore :=
  { st with grants := st.grants.insert (org, grant) }

def deleteGrant (org : String) (grant : GrantRecord) : ControlStore × Bool :=
  ({ st with grants := st.grants.filter (· ≠ (org, grant)) }, st.grants.contains (org, grant))

def listGrants (org : String) : List GrantRecord :=
  (st.grants.filter (·.1 = org)).map Prod.snd

def addRoleMember (org role user : String) : ControlStore :=
  { st with toMetaStore := st.toMetaStore.addRoleMember org role user }

def removeRoleMember (org role user : String) : ControlStore × Bool :=
  ({ st with toMetaStore := (st.toMetaStore.removeRoleMember org role user).1 },
    (st.toMetaStore.removeRoleMember org role user).2)

/-- `list_orgs`: every org that owns an object of any kind. -/
def listOrgs : List String :=
  (((st.orgs.entries.filter fun o => o.2.ownsAny).map Sigma.fst ++ st.grants.map Prod.fst ++
    st.otherOrgs).dedup).insertionSort (· ≤ ·)

end ControlStore

/-! ## The statements -/

/-- What the statements of all sessions share. -/
structure GrantPlane where
  store : ControlStore
  enforcer : GrantEnforcer

def GrantEnforcer.publish (E : GrantEnforcer) (grants : List Grant) : GrantEnforcer := { E with grants }

inductive GrantOp
  | putGrant (org : String) (grant : GrantRecord)
  | deleteGrant (org : String) (grant : GrantRecord)
  | addRoleMember (org role user : String)
  | removeRoleMember (org role user : String)
  | listOrgs
  | listGrants (org : String)
  | publish (grants : List Grant)

abbrev StoreFailure := String

def GrantOp.Reply : GrantOp → Type
  | putGrant .. | addRoleMember .. => Except StoreFailure Unit
  | deleteGrant .. | removeRoleMember .. => Except StoreFailure Bool
  | listOrgs => Except StoreFailure (List String)
  | listGrants .. => Except StoreFailure (List GrantRecord)
  | publish .. => Unit

/-- One operation. A store call that fails changes nothing. -/
def GrantPlane.exec (failure : Option StoreFailure) (s : GrantPlane) : (op : GrantOp) → op.Reply × GrantPlane
  | .putGrant org grant =>
    match failure with
    | some e => (.error e, s)
    | none => (.ok (), { s with store := s.store.putGrant org grant })
  | .deleteGrant org grant =>
    match failure with
    | some e => (.error e, s)
    | none => (.ok (s.store.deleteGrant org grant).2, { s with store := (s.store.deleteGrant org grant).1 })
  | .addRoleMember org role user =>
    match failure with
    | some e => (.error e, s)
    | none => (.ok (), { s with store := s.store.addRoleMember org role user })
  | .removeRoleMember org role user =>
    match failure with
    | some e => (.error e, s)
    | none => (.ok (s.store.removeRoleMember org role user).2,
        { s with store := (s.store.removeRoleMember org role user).1 })
  | .listOrgs => (failure.elim (.ok s.store.listOrgs) .error, s)
  | .listGrants org => (failure.elim (.ok (s.store.listGrants org)) .error, s)
  | .publish grants => ((), { s with enforcer := s.enforcer.publish grants })

abbrev GrantProgram := Prog GrantOp GrantOp.Reply

inductive GrantOutcome
  | granted
  | revoked
  | noOp
  deriving DecidableEq, Repr

inductive GrantAdminError
  | notConfigured
  | backend (reason : String)
  deriving DecidableEq, Repr

namespace GrantAdmin

def putGrant (org : String) (grant : GrantRecord) : GrantProgram (Except StoreFailure Unit) :=
  .perform (GrantOp.putGrant org grant)

def deleteGrant (org : String) (grant : GrantRecord) : GrantProgram (Except StoreFailure Bool) :=
  .perform (GrantOp.deleteGrant org grant)

def addRoleMember (org role user : String) : GrantProgram (Except StoreFailure Unit) :=
  .perform (GrantOp.addRoleMember org role user)

def removeRoleMember (org role user : String) : GrantProgram (Except StoreFailure Bool) :=
  .perform (GrantOp.removeRoleMember org role user)

def listOrgs : GrantProgram (Except StoreFailure (List String)) := .perform GrantOp.listOrgs

def listGrants (org : String) : GrantProgram (Except StoreFailure (List GrantRecord)) := .perform (GrantOp.listGrants org)

def publish (grants : List Grant) : GrantProgram Unit := .perform (GrantOp.publish grants)

/-- The loop of `load_all_grants`. -/
def loadOrgs : List String → List Grant → GrantProgram (Except StoreFailure (List Grant))
  | [], out => return .ok out
  | org :: orgs, out => do
    match ← listGrants org with
    | .error e => return .error e
    | .ok records => loadOrgs orgs (out ++ records.map (buildGrant org))

def loadAllGrants : GrantProgram (Except StoreFailure (List Grant)) := do
  match ← listOrgs with
  | .error e => return .error e
  | .ok orgs => loadOrgs orgs []

/-- `StoreGrantAdmin::refresh`. Only grant mode has an enforcer to keep fresh. -/
def refresh (mode : AuthzMode) (org : String) : GrantProgram (Except GrantAdminError Unit) :=
  match mode with
  | .open => return .ok ()
  | .grant => do
    match ← loadAllGrants with
    | .error e =>
      let quoted := org.quote
      return .error (.backend s!"grant refresh for org {quoted}: {e}")
    | .ok grants =>
      publish grants
      return .ok ()

def revokeOutcome (removed : Bool) : GrantOutcome := if removed then .revoked else .noOp

/-- The statement's own write. The grantee of a privilege is a bare name and is stored as a user. -/
def write (org : String) : GrantDdl → GrantProgram (Except StoreFailure GrantOutcome)
  | .grantSelect catalog schema table grantee => do
    return (← putGrant org (.select .user grantee catalog schema table)).map fun _ => .granted
  | .grantUsage catalog grantee => do
    return (← putGrant org (.usage .user grantee catalog)).map fun _ => .granted
  | .revokeSelect catalog schema table grantee => do
    return (← deleteGrant org (.select .user grantee catalog schema table)).map revokeOutcome
  | .revokeUsage catalog grantee => do
    return (← deleteGrant org (.usage .user grantee catalog)).map revokeOutcome
  | .grantRole role user => do
    return (← addRoleMember org role user).map fun _ => .granted
  | .revokeRole role user => do
    return (← removeRoleMember org role user).map revokeOutcome

def apply (mode : AuthzMode) (org : String) (ddl : GrantDdl) :
    GrantProgram (Except GrantAdminError GrantOutcome) := do
  match ← write org ddl with
  | .error e => return .error (.backend s!"grant store: {e}")
  | .ok outcome =>
    match ← refresh mode org with
    | .error e => return .error e
    | .ok () => return .ok outcome

end GrantAdmin

end Dataglot
