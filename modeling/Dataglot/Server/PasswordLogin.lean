/-
Login in `md5` and `scram-sha-256` mode. Both check the password that the
merged source gives for the username: the control-plane store's first, the
configured one where the store has none. On the way the store source publishes
what it knows about the user, which the startup observer takes up whichever of
the two passwords is then checked.
-/
import Dataglot.Server.Startup
import Dataglot.Server.UserStore

namespace Dataglot
open Server

/-- `ConfigPasswordSource::password`: the cleartext the environment gives for a configured user. Boot
fails on a variable that is unset or empty. -/
def configPassword (identities : HashMap IdentityProfileConfig) (env : String → Option String)
    (user : String) : Option String := do
  let profile ← identities.lookup user
  let var ← profile.passwordEnv
  (env var).filter fun pw => !pw.isEmpty

/-- `StoreUserPasswordSource::password`. The principal and the org are published as soon as the user
is found, before its password is looked at. -/
def storePassword (st : MetaStore) (C : SecretCipher) (user : String) (ctx : AuthContext) :
    Option String × AuthContext :=
  match st.findUser user with
  | none => (none, ctx)
  | some (org, record, hash) =>
    let principal : AuthPrincipal :=
      ⟨st.listRolesForUser org user, record.isSuperuser, record.isSuperuser⟩
    (hash.bind C.decrypt, { ctx with principal := some principal, authOrg := some org })

/-- `MergedPasswordSource::password`, store over config. -/
def mergedPassword (st : MetaStore) (C : SecretCipher) (identities : HashMap IdentityProfileConfig)
    (env : String → Option String) (user : String) (ctx : AuthContext) : Option String × AuthContext :=
  match storePassword st C user ctx with
  | (some pw, ctx) => (some pw, ctx)
  | (none, ctx) => (configPassword identities env user, ctx)

/-- The password exchange and the observer after it. An unknown user is checked against the empty
password; the challenge is idealised to a comparison of the passwords. -/
def Server.passwordLogin (S : Server) (st : MetaStore) (C : SecretCipher) (env : String → Option String)
    (info : StartupInfo) (presented : String) : Except LoginError Session :=
  let (pw, ctx) := mergedPassword st C S.config.identities env info.user .initial
  if presented = pw.getD "" then (S.startupObserver info ctx).mapError .rejected
  else .error (.invalidPassword info.user)

/-! ## Whose attributes a session has -/

/-- The org a configured profile puts the user in. -/
def Server.profileOrg (S : Server) (user : String) : Option String :=
  (resolveIdentity user S.config.identities).org

/-- The session of store user `record` of `org`: that org, that user's roles and superuser flag, and
the admin surface only for a superuser. -/
structure StoreAttributes (st : MetaStore) (s : Session) (org : String) (record : UserRecord) : Prop where
  org_eq : s.org = org ∧ s.identity.org = some org
  roles_eq : s.identity.roles = st.listRolesForUser org record.name
  superuser_eq : s.identity.isSuperuser = record.isSuperuser
  admin : s.principal.canAdmin = true → record.isSuperuser = true

/-- The session of a configured user: the profile's org and groups, and nothing of a store user. -/
structure ConfigAttributes (S : Server) (s : Session) (user : String) : Prop where
  org_eq : s.identity.org = some ((S.profileOrg user).getD S.bootOrg)
  groups_eq : s.identity.orgGroups =
    (resolveIdentityWithRoles user S.config.identities S.config.roles).orgGroups
  roles_eq : s.identity.roles = []
  superuser_eq : s.identity.isSuperuser = false

section Facts

variable {S : Server} {st : MetaStore} {C : SecretCipher} {env : String → Option String}
  {info : StartupInfo} {presented : String} {s : Session}

theorem passwordLogin_ok (h : S.passwordLogin st C env info presented = .ok s) :
    S.startupObserver info (mergedPassword st C S.config.identities env info.user .initial).2 = .ok s := by
  unfold passwordLogin at h
  dsimp only at h
  split_ifs at h
  exact Except.mapError_ok_iff.mp h

theorem mergedPassword_context (user) (ctx) :
    (mergedPassword st C S.config.identities env user ctx).2 = (storePassword st C user ctx).2 := by
  unfold mergedPassword
  split <;> simp_all

variable {hash : Option String} {org : String} {record : UserRecord}

/-- What the store source finds and publishes for a user that is in an org. -/
theorem storePassword_of_getUser (hu : st.Unique) {user} (hg : st.getUser org user = some (record, hash))
    (ctx) :
    storePassword st C user ctx = (hash.bind C.decrypt, { ctx with
      principal := some ⟨st.listRolesForUser org user, record.isSuperuser, record.isSuperuser⟩,
      authOrg := some org }) := by
  simp only [storePassword, hu.findUser.mpr hg]

theorem storePassword_of_none {user} (h : ∀ org, st.getUser org user = none) (ctx) :
    storePassword st C user ctx = (none, ctx) := by
  simp only [storePassword, MetaStore.findUser_eq_none.mpr h]

variable (hmode : S.config.authMode = .md5 ∨ S.config.authMode = .scramSha256)
include hmode

theorem session_of_principal (p) (authOrg)
    (hs : S.startupObserver info ⟨some p, authOrg, none⟩ = .ok s) :
    s.org = ((S.profileOrg info.user).or authOrg).getD S.bootOrg ∧ s.identity.org = some s.org ∧
      s.identity.orgGroups =
        (resolveIdentityWithRoles info.user S.config.identities S.config.roles).orgGroups ∧
      s.identity.roles = p.roles ∧ s.identity.isSuperuser = p.isSuperuser ∧
      s.principal.canAdmin = ((S.config.identities.lookup info.user).isSome || p.isSuperuser) := by
  obtain ⟨-, rfl⟩ := startupObserver_ok.mp hs
  -- outside the directory modes no groups are overlaid
  have hc : S.connectionIdentity info ⟨some p, authOrg, none⟩ =
      overlayPrincipal (resolveIdentityWithRoles info.user S.config.identities S.config.roles) (some p) := by
    rcases hmode with hm | hm <;>
      simp [connectionIdentity, AuthMode.resolveSessionGroups, overlayGroups, hm]
  have ho : S.sessionOrg info ⟨some p, authOrg, none⟩ =
      ((S.profileOrg info.user).or authOrg).getD S.bootOrg := by
    simp [sessionOrg, hc, resolvedSessionOrg, resolveIdentityWithRoles, profileOrg]
  have hp := resolveIdentity_unprivileged S.config.identities info.user
  have ha : (S.sessionPrincipal info ⟨some p, authOrg, none⟩).canAdmin =
      ((S.config.identities.lookup info.user).isSome || p.isSuperuser) := by
    have ht : (S.config.authMode == .trust) = false := by rcases hmode with hm | hm <;> rw [hm] <;> rfl
    simp [sessionPrincipal, ht]
  refine ⟨ho, sessionIdentity_org, ?_, ?_, ?_, ha⟩
  · rw [sessionIdentity_eq, hc]
    exact overlayPrincipal_orgGroups _ _
  · rw [sessionIdentity_eq, hc]
    exact overlayPrincipal_roles (by simp [resolveIdentityWithRoles, hp]) p
  · rw [sessionIdentity_eq, hc]
    exact overlayPrincipal_isSuperuser (by simp [resolveIdentityWithRoles, hp]) p

theorem session_of_storeUser (hu : st.Unique) (hs : S.passwordLogin st C env info presented = .ok s)
    (hge : st.getUser org info.user = some (record, hash)) :
    s.identity.org = some s.org ∧ s.org = (S.profileOrg info.user).getD org ∧
      s.identity.orgGroups =
        (resolveIdentityWithRoles info.user S.config.identities S.config.roles).orgGroups ∧
      s.identity.roles = st.listRolesForUser org info.user ∧
      s.identity.isSuperuser = record.isSuperuser ∧
      s.principal.canAdmin = ((S.config.identities.lookup info.user).isSome || record.isSuperuser) := by
  have ho := passwordLogin_ok hs
  rw [mergedPassword_context, storePassword_of_getUser hu hge] at ho
  obtain ⟨hor, hi, hg, hr, hsu, ha⟩ := session_of_principal hmode _ _ ho
  refine ⟨hi, ?_, hg, hr, hsu, ha⟩
  rw [hor]
  cases S.profileOrg info.user <;> rfl

theorem session_of_noStoreUser (hs : S.passwordLogin st C env info presented = .ok s)
    (hn : ∀ org, st.getUser org info.user = none) :
    ConfigAttributes S s info.user := by
  have ho := passwordLogin_ok hs
  rw [mergedPassword_context, storePassword_of_none hn] at ho
  obtain ⟨hor, hi, hg, hr, hsu, -⟩ := session_of_principal hmode .default none ho
  rw [Option.or_none] at hor
  exact ⟨by rw [hi, hor], hg, hr, hsu⟩

theorem storeAttributes_iff (hu : st.Unique) (hs : S.passwordLogin st C env info presented = .ok s)
    (hg : st.getUser org info.user = some (record, hash)) : StoreAttributes st s org record ↔
      (S.profileOrg info.user = none ∨ S.profileOrg info.user = some org) ∧
      ((S.config.identities.lookup info.user).isSome → record.isSuperuser = true) := by
  obtain ⟨hi, ho, -, hr, hsu, ha⟩ := session_of_storeUser hmode hu hs hg
  have hname := MetaStore.getUser_name hg
  have hsa : s.org = org ↔ S.profileOrg info.user = none ∨ S.profileOrg info.user = some org := by
    rw [ho]
    cases S.profileOrg info.user <;> simp
  rw [← hsa]
  constructor
  · intro h
    exact ⟨h.org_eq.1, fun hc => h.admin (by rw [ha, hc, Bool.true_or])⟩
  · rintro ⟨hso, hc⟩
    refine ⟨⟨hso, by rw [hi, hso]⟩, by rw [hr, hname], hsu, fun h => ?_⟩
    rw [ha, Bool.or_eq_true] at h
    exact h.elim hc id

theorem configAttributes_iff (hu : st.Unique) (hs : S.passwordLogin st C env info presented = .ok s) :
    ConfigAttributes S s info.user ↔
      ∀ org record hash, st.getUser org info.user = some (record, hash) →
        st.listRolesForUser org info.user = [] ∧ record.isSuperuser = false ∧
        ((S.profileOrg info.user).isSome ∨ org = S.bootOrg) := by
  constructor
  · intro h org record hash hge
    obtain ⟨hi, ho, -, hro, hsu, -⟩ := session_of_storeUser hmode hu hs hge
    refine ⟨hro.symm.trans h.roles_eq, hsu.symm.trans h.superuser_eq, ?_⟩
    have heq : some s.org = _ := hi.symm.trans h.org_eq
    rw [ho] at heq
    cases hp : S.profileOrg info.user with
    | some o => exact .inl rfl
    | none =>
      rw [hp] at heq
      exact .inr (Option.some.inj heq)
  · intro h
    by_cases hn : ∀ org, st.getUser org info.user = none
    · exact session_of_noStoreUser hmode hs hn
    · obtain ⟨org, hne⟩ := not_forall.mp hn
      obtain ⟨⟨record, hash⟩, hge⟩ := Option.ne_none_iff_exists'.mp hne
      obtain ⟨hi, ho, hg, hro, hsu, -⟩ := session_of_storeUser hmode hu hs hge
      obtain ⟨hr, hsp, ho'⟩ := h org record hash hge
      refine ⟨?_, hg, hro.trans hr, hsu.trans hsp⟩
      rw [hi, ho]
      cases hp : S.profileOrg info.user with
      | some o => rfl
      | none =>
        rw [hp] at ho'
        exact congrArg some (ho'.resolve_left (by simp))

end Facts

/-- **Whose account a password login opens.** On any store that statements lead to:

(a) a login with the password stored for a user of `org` has that user's attributes exactly when
configuration does not put the name in another org, nor names it at all unless the user is a
superuser;

(b) a login with the configured password has the profile's attributes and no store user's exactly
when a store user of that name, if there is one, has no roles, is no superuser, and is of the org
the session would be in anyway. -/
theorem passwordLogin_attributes_iff (S : Server) (cipher : Option SecretCipher) (st : MetaStore)
    (C : SecretCipher) (env : String → Option String) (info : StartupInfo) (presented : String) (s : Session)
    (hmode : S.config.authMode = .md5 ∨ S.config.authMode = .scramSha256)
    (hst : Reachable cipher st) (hs : S.passwordLogin st C env info presented = .ok s) :
    (∀ org record hash, st.getUser org info.user = some (record, some hash) →
      C.decrypt hash = some presented →
      (StoreAttributes st s org record ↔
        (S.profileOrg info.user = none ∨ S.profileOrg info.user = some org) ∧
        ((S.config.identities.lookup info.user).isSome → record.isSuperuser = true))) ∧
    ((storePassword st C info.user .initial).1 = none →
      configPassword S.config.identities env info.user = some presented →
      (ConfigAttributes S s info.user ↔
        ∀ org record hash, st.getUser org info.user = some (record, hash) →
          st.listRolesForUser org info.user = [] ∧ record.isSuperuser = false ∧
          ((S.profileOrg info.user).isSome ∨ org = S.bootOrg))) := by
  have hu := hst.unique
  exact ⟨fun _ _ _ hg _ => storeAttributes_iff hmode hu hs hg, fun _ _ => configAttributes_iff hmode hu hs⟩

/-- A server with one configured user, `alice` of org `acme`. -/
def oneProfileServer : Server where
  config := ⟨"pg", "public", .md5, .grant, AList.singleton "alice" ⟨some "acme", [], some "PW_ALICE"⟩, ∅⟩
  bootOrg := "default"
  catalogs := fun _ => ["pg"]

def plainCipher : SecretCipher := ⟨fun _ pw => pw, some, fun _ _ => rfl⟩

/-- The store after `CREATE USER name PASSWORD 'pw'` in org `beta`. -/
def betaUserStore (name : String) : MetaStore := MetaStore.empty.putUser "beta" name (some "pw") false

theorem betaUserStore_reachable (name) : Reachable (some plainCipher) (betaUserStore name) :=
  have hc : UserAdmin.apply (some plainCipher) "" .empty "beta" (.createUser name (some "pw") false false) =
      .ok (.created name, betaUserStore name) := rfl
  .step .init (.ddl hc)

/-- `bob`, whom configuration does not name, logs in with the password his org gave him. -/
theorem passwordLogin_store_user_attributes : ∃ s,
    oneProfileServer.passwordLogin (betaUserStore "bob") plainCipher (fun _ => none) ⟨"bob", none⟩ "pw"
      = .ok s ∧ StoreAttributes (betaUserStore "bob") s "beta" ⟨"bob", false⟩ :=
  ⟨_, rfl, ((passwordLogin_attributes_iff oneProfileServer (some plainCipher) (betaUserStore "bob") plainCipher
    (fun _ => none) ⟨"bob", none⟩ "pw" _ (.inl rfl) (betaUserStore_reachable "bob") rfl).1 "beta"
    ⟨"bob", false⟩ "pw" rfl rfl).mpr ⟨.inl rfl, fun h => by cases h⟩⟩

/-- The same statement for the name of the configured user: a password that org `beta` set opens a
session of org `acme`, with the admin surface. -/
theorem passwordLogin_crosses_orgs : ∃ s,
    oneProfileServer.passwordLogin (betaUserStore "alice") plainCipher (fun _ => some "config") ⟨"alice", none⟩
      "pw" = .ok s ∧ s.org = "acme" ∧ s.identity.org = some "acme" ∧ s.principal.canAdmin = true ∧
      ¬ StoreAttributes (betaUserStore "alice") s "beta" ⟨"alice", false⟩ :=
  ⟨_, rfl, rfl, rfl, rfl, fun h => by have := h.org_eq.1; exact absurd this (by decide)⟩

end Dataglot
