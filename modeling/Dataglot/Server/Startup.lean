/-
What a connection becomes when its startup message has been authenticated: the
startup observer of `server.rs` turns the asserted username, what authentication
found out, and the `database` parameter into a session. The session's identity
is what every policy is enforced for; its defaults are what the planner resolves
table names with.
-/
import Dataglot.Policy.Grant
import Dataglot.Server.Identity

namespace Dataglot
open DataFusion Identity

inductive AuthMode
  | trust | md5 | scramSha256 | jwt | ldap
  deriving DecidableEq, Repr

/-! ## What authentication hands over -/

/-- `AuthPrincipal`: the task-local the password source and the startup observer write. -/
structure AuthPrincipal where
  roles : List String
  isSuperuser : Bool
  canAdmin : Bool
  deriving DecidableEq, Repr

/-- The value the task-local starts with. -/
def AuthPrincipal.default : AuthPrincipal := ⟨[], false, false⟩

/-- `AuthGroups`: the directory groups of a `jwt` or `ldap` login. -/
structure AuthGroups where
  groups : List String
  unavailable : Bool
  deriving DecidableEq, Repr

def AuthGroups.resolved (groups : List String) : AuthGroups := ⟨groups, false⟩

/-- The connection's task-locals when the observer runs. -/
structure AuthContext where
  principal : Option AuthPrincipal
  authOrg : Option String
  authGroups : Option AuthGroups
  deriving DecidableEq, Repr

/-- The task-locals a connection starts with. -/
def AuthContext.initial : AuthContext := ⟨some .default, none, none⟩

inductive GroupResolution
  | groups (groups : List OrgGroupId)
  | noGroups
  | unavailable
  deriving DecidableEq, Repr

namespace GroupResolution

def fromNames (names : List String) : GroupResolution :=
  let gs := names.map OrgGroupId.mk
  if gs.isEmpty then .noGroups else .groups gs

def fromAuthGroups (auth : AuthGroups) : GroupResolution :=
  if auth.unavailable then .unavailable else fromNames auth.groups

def groupNames : GroupResolution → List String
  | .groups gs => gs.map (·.asStr)
  | .noGroups => []
  | .unavailable => []

end GroupResolution

/-- `GroupResolver::resolve_session_groups` of the resolver the auth mode selects: only a directory
login overlays groups, the configured ones being in the identity already. -/
def AuthMode.resolveSessionGroups (mode : AuthMode) (auth : Option AuthGroups) : Option GroupResolution :=
  match mode with
  | .trust | .md5 | .scramSha256 => none
  | .jwt | .ldap => some (auth.elim .noGroups .fromAuthGroups)

/-! ## The startup observer -/

structure ServerConfig where
  defaultCatalog : String
  defaultSchema : String
  authMode : AuthMode
  authzMode : AuthzMode
  identities : HashMap IdentityProfileConfig
  roles : HashMap RoleConfig

/-- The server as the observer sees it. `catalogs org` are the catalogs a session of `org` can name
once its own have been registered in place of the boot org's. -/
structure Server where
  config : ServerConfig
  bootOrg : String
  catalogs : String → List String

/-- `StartupInfo`: a missing user is the empty string, a missing or empty database is none. -/
structure StartupInfo where
  user : String
  database : Option String
  deriving DecidableEq, Repr

/-- The first lines of `invoke_startup_observer`. -/
def StartupInfo.ofMetadata (user database : Option String) : StartupInfo where
  user := user.getD ""
  database := database.filter fun s => !s.isEmpty

structure StartupRejection where
  sqlstate : String
  message : String
  deriving DecidableEq, Repr

/-- How a login fails: on its credential, or because the observer refuses the connection. -/
inductive LoginError
  | invalidPassword (user : String)
  | rejected (rejection : StartupRejection)
  deriving DecidableEq, Repr

inductive ConnectionDefaultCatalog
  | apply (catalog : String)
  | unknownCatalog (catalog : String)
  | keep
  deriving DecidableEq, Repr

def connectionDefaultCatalog (database : Option String) (isRegistered : String → Bool) :
    ConnectionDefaultCatalog :=
  match database with
  | none => .keep
  | some db => if isRegistered db then .apply db else .unknownCatalog db

def resolvedSessionOrg (identityOrg authOrg : Option String) (bootOrg : String) : String :=
  (identityOrg.or authOrg).getD bootOrg

/-- What the observer leaves behind for the connection's queries. -/
structure Session where
  identity : Identity
  principal : AuthPrincipal
  org : String
  defaultCatalog : String
  defaultSchema : String
  deriving DecidableEq, Repr

/-- The RBAC roles and the superuser flag of the store, over the configured identity. -/
def overlayPrincipal (id : Identity) (principal : Option AuthPrincipal) : Identity :=
  match principal with
  | none => id
  | some p =>
    let id := if p.roles.isEmpty then id else id.withRoles p.roles
    if p.isSuperuser then id.asSuperuser else id

/-- The directory's groups in place of the configured ones, with the roles folded in again. -/
def overlayGroups (id : Identity) (resolution : Option GroupResolution) (roles : HashMap RoleConfig) :
    Identity :=
  match resolution with
  | none => id
  | some r => foldRolesIntoGroups (id.withGroups r.groupNames) roles

section Overlays

variable (id : Identity) (p : Option AuthPrincipal) (r : Option GroupResolution) (roles : HashMap RoleConfig)

@[simp] theorem overlayPrincipal_user : (overlayPrincipal id p).user = id.user := by
  cases p with
  | none => rfl
  | some p => simp only [overlayPrincipal]; split_ifs <;> rfl

@[simp] theorem overlayPrincipal_org : (overlayPrincipal id p).org = id.org := by
  cases p with
  | none => rfl
  | some p => simp only [overlayPrincipal]; split_ifs <;> rfl

@[simp] theorem overlayPrincipal_orgGroups : (overlayPrincipal id p).orgGroups = id.orgGroups := by
  cases p with
  | none => rfl
  | some p => simp only [overlayPrincipal]; split_ifs <;> rfl

theorem overlayPrincipal_roles {id} (h : id.roles = []) (p) :
    (overlayPrincipal id (some p)).roles = p.roles := by
  obtain ⟨roles, su, admin⟩ := p
  cases roles <;> cases su <;> simp [overlayPrincipal, withRoles, asSuperuser, h]

theorem overlayPrincipal_isSuperuser {id} (h : id.isSuperuser = false) (p) :
    (overlayPrincipal id (some p)).isSuperuser = p.isSuperuser := by
  obtain ⟨roles, su, admin⟩ := p
  cases roles <;> cases su <;> simp [overlayPrincipal, withRoles, asSuperuser, h]

@[simp] theorem overlayGroups_user : (overlayGroups id r roles).user = id.user := by
  cases r <;> simp [overlayGroups, withGroups]

end Overlays

namespace Server

variable (S : Server) (info : StartupInfo) (ctx : AuthContext)

/-- The principal the observer writes back, `can_admin` decided. -/
def sessionPrincipal : AuthPrincipal :=
  let isSuperuser := ctx.principal.any (·.isSuperuser)
  { roles := (ctx.principal.map (·.roles)).getD []
    isSuperuser
    canAdmin := S.config.authMode == .trust || (S.config.identities.lookup info.user).isSome || isSuperuser }

/-- The identity after the overlays, its org not filled in yet. -/
def connectionIdentity : Identity :=
  let id := resolveIdentityWithRoles info.user S.config.identities S.config.roles
  let id := overlayPrincipal id ctx.principal
  overlayGroups id (S.config.authMode.resolveSessionGroups ctx.authGroups) S.config.roles

def sessionOrg : String :=
  resolvedSessionOrg (S.connectionIdentity info ctx).org ctx.authOrg S.bootOrg

/-- The identity that is published: one without an org takes the connection's. -/
def sessionIdentity : Identity :=
  let id := S.connectionIdentity info ctx
  if id.org.isNone then id.withOrg (S.sessionOrg info ctx) else id

/-- The startup observer `run` installs on every connection. -/
def startupObserver : Except StartupRejection Session :=
  let session (defaultCatalog : String) : Session :=
    { identity := S.sessionIdentity info ctx
      principal := S.sessionPrincipal info ctx
      org := S.sessionOrg info ctx
      defaultCatalog
      defaultSchema := S.config.defaultSchema }
  match connectionDefaultCatalog info.database fun c => (S.catalogs (S.sessionOrg info ctx)).contains c with
  | .apply db => .ok (session db)
  | .unknownCatalog db => .error ⟨"3D000", s!"database \"{db}\" does not exist"⟩
  | .keep => .ok (session S.config.defaultCatalog)

variable {S info ctx}

/-- The observer refuses an unknown database and nothing else, and the database only chooses the
session's default catalog. -/
theorem startupObserver_ok {s} : S.startupObserver info ctx = .ok s ↔
    (∀ db, info.database = some db → db ∈ S.catalogs (S.sessionOrg info ctx)) ∧
      s = { identity := S.sessionIdentity info ctx
            principal := S.sessionPrincipal info ctx
            org := S.sessionOrg info ctx
            defaultCatalog := info.database.getD S.config.defaultCatalog
            defaultSchema := S.config.defaultSchema } := by
  unfold startupObserver connectionDefaultCatalog
  cases info.database with
  | none => simp [eq_comm]
  | some db =>
    by_cases hdb : db ∈ S.catalogs (S.sessionOrg info ctx)
    · simp [hdb, eq_comm]
    · simp [hdb]

@[simp] theorem sessionIdentity_org : (S.sessionIdentity info ctx).org = some (S.sessionOrg info ctx) := by
  simp only [sessionIdentity, sessionOrg, resolvedSessionOrg]
  cases h : (S.connectionIdentity info ctx).org <;> simp [h, withOrg]

/-- The published identity differs from the connection's in nothing but the org. -/
theorem sessionIdentity_eq :
    S.sessionIdentity info ctx = { S.connectionIdentity info ctx with org := some (S.sessionOrg info ctx) } := by
  have ho := @sessionIdentity_org S info ctx
  unfold sessionIdentity at ho ⊢
  dsimp only at ho ⊢
  split_ifs at ho ⊢
  · rfl
  · rw [← ho]

theorem sessionIdentity_user :
    (S.sessionIdentity info ctx).user = if info.user = "" then none else some info.user := by
  have hus : (S.connectionIdentity info ctx).user = if info.user = "" then none else some info.user := by
    simp only [connectionIdentity, overlayGroups_user, overlayPrincipal_user, resolveIdentityWithRoles,
      foldRolesIntoGroups_user]
    rcases resolveIdentity_cases S.config.identities info.user with ⟨hu, hid⟩ | ⟨hu, hus, -⟩
    · rw [hid, if_pos hu]
      rfl
    · rw [hus, if_neg hu]
  rw [sessionIdentity_eq]
  exact hus

theorem session_congr (S : Server) {info info'} (ctx) (h : info.user = info'.user) :
    S.sessionIdentity info ctx = S.sessionIdentity info' ctx ∧
      S.sessionPrincipal info ctx = S.sessionPrincipal info' ctx := by
  obtain ⟨user, db⟩ := info
  obtain ⟨user', db'⟩ := info'
  obtain rfl : user = user' := h
  exact ⟨rfl, rfl⟩

end Server

/-! ## The grant check and the planner

The planner resolves a scan with the session's defaults. The grant check resolves it with the
enforcer's, which are the configured ones on every connection. -/

/-- `build_grant_enforcer`, called once at boot. -/
def buildGrantEnforcer (mode : AuthzMode) (grants : List Grant) (defaultCatalog defaultSchema : String) :
    Option GrantEnforcer :=
  match mode with
  | .open => none
  | .grant => some ⟨.grant, grants, some (defaultCatalog, defaultSchema)⟩

def Server.grantEnforcer (S : Server) (grants : List Grant) : Option GrantEnforcer :=
  buildGrantEnforcer S.config.authzMode grants S.config.defaultCatalog S.config.defaultSchema

/-- The table the planner reads for a reference on a connection. -/
def Session.plannedTable (s : Session) (rel : TableReference) : String × String × String :=
  rel.resolve s.defaultCatalog s.defaultSchema

/-- The check of `rel` is about the table that will be read: it resolves to it, and so passes only
for a system table or with the grants on that very table. -/
structure ChecksPlannedTable (E : GrantEnforcer) (s : Session) (rel : TableReference) : Prop where
  resolves : E.resolveFull rel = some (s.plannedTable rel)
  granted : E.Readable s.identity rel → isSystemSchema (s.plannedTable rel).2.1 = true ∨
    Granted E.grants s.identity (s.plannedTable rel).1 (s.plannedTable rel).2.1 (s.plannedTable rel).2.2

theorem grantEnforcer_eq_some {S : Server} {grants E} (hE : S.grantEnforcer grants = some E) :
    E = ⟨.grant, grants, some (S.config.defaultCatalog, S.config.defaultSchema)⟩ := by
  unfold Server.grantEnforcer buildGrantEnforcer at hE
  split at hE
  · cases hE
  · exact (Option.some.inj hE).symm

theorem ChecksPlannedTable.of_resolves {E s rel}
    (h : E.resolveFull rel = some (s.plannedTable rel)) : ChecksPlannedTable E s rel :=
  ⟨h, fun hr => hr _ _ _ h⟩

/-- The enforcer and the planner disagree on the catalog alone, and only where the reference leaves
it out. -/
theorem resolveFull_eq_resolve (grants dc ds catalog rel) :
    (GrantEnforcer.mk .grant grants (some (dc, ds))).resolveFull rel = some (rel.resolve catalog ds) ↔
      rel.level = 3 ∨ catalog = dc := by
  cases rel <;> simp [GrantEnforcer.resolveFull, TableReference.resolve, TableReference.catalog,
    TableReference.schema, TableReference.table, TableReference.level, eq_comm]

/-- **Grants against the planned table.** On an accepted connection the grant check of a reference is
about the table the planner reads exactly when the reference names its catalog or the connection
kept the configured default catalog. -/
theorem checksPlannedTable_iff (S : Server) (info : StartupInfo) (ctx : AuthContext) (s : Session)
    (grants : List Grant) (E : GrantEnforcer) (rel : TableReference)
    (hE : S.grantEnforcer grants = some E) (hs : S.startupObserver info ctx = .ok s) :
    ChecksPlannedTable E s rel ↔
      rel.level = 3 ∨ info.database = none ∨ info.database = some S.config.defaultCatalog := by
  obtain ⟨-, rfl⟩ := Server.startupObserver_ok.mp hs
  obtain rfl := grantEnforcer_eq_some hE
  have hc : info.database.getD S.config.defaultCatalog = S.config.defaultCatalog ↔
      info.database = none ∨ info.database = some S.config.defaultCatalog := by
    cases info.database <;> simp
  rw [← hc, ← resolveFull_eq_resolve grants _ S.config.defaultSchema]
  exact ⟨fun h => h.resolves, fun h => .of_resolves h⟩

/-- A server of two catalogs with the same table in each, `pg` being the default. -/
def twoCatalogServer : Server where
  config := ⟨"pg", "public", .md5, .grant, ∅, ∅⟩
  bootOrg := "default"
  catalogs := fun _ => ["pg", "crm"]

/-- Without a `database` parameter, a bare reference is checked as the table it reads. -/
theorem checksPlannedTable_default_database :
    ∃ s E, twoCatalogServer.startupObserver ⟨"ann", none⟩ ⟨some .default, none, none⟩ = .ok s ∧
      twoCatalogServer.grantEnforcer [] = some E ∧ ChecksPlannedTable E s (.bare "users") :=
  ⟨_, _, rfl, rfl, (checksPlannedTable_iff twoCatalogServer ⟨"ann", none⟩ ⟨some .default, none, none⟩ _ []
    _ (.bare "users") rfl rfl).mpr (.inr (.inl rfl))⟩

/-- `\c crm`, then `SELECT * FROM users`, as a user granted `pg.public.users` alone: the query is let
through and reads `crm.public.users`, on which there is no grant. -/
theorem reads_ungranted_table_through_database :
    let grants : List Grant := [.usage "ann" (some "default") "pg",
      .select "ann" (some "default") "pg" "public" "users"]
    ∃ s E, twoCatalogServer.startupObserver ⟨"ann", some "crm"⟩ ⟨some .default, none, none⟩ = .ok s ∧
      twoCatalogServer.grantEnforcer grants = some E ∧
      (∃ r, E.rewrite (.tableScan (.bare "users") none [] none) s.identity = .ok r) ∧
      s.plannedTable (.bare "users") = ("crm", "public", "users") ∧
      ¬ Granted E.grants s.identity "crm" "public" "users" ∧
      ¬ ChecksPlannedTable E s (.bare "users") := by
  intro grants
  refine ⟨_, _, rfl, rfl, ⟨_, rfl⟩, rfl, fun h => ?_, fun h => ?_⟩
  · obtain ⟨g, hg, ho, -⟩ := h.usage
    simp only [grants, List.mem_cons, List.not_mem_nil, or_false] at hg
    rcases hg with rfl | rfl <;> simp [Grant.usage, Grant.select] at ho
  · exact absurd h.resolves (by decide)

end Dataglot
