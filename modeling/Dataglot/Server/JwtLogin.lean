/-
Login in `jwt` mode (`jwt.rs`, `CredentialStartupHandler` in `handler.rs`). The
client presents a token as its password. What is verified is the token; the
username the session runs as is the one the startup message asserts.
-/
import Dataglot.Core.Json
import Dataglot.Server.Startup

namespace Dataglot

/-- `extract_groups`: anything but an array is no memberships; items that are not strings are
skipped. -/
def extractGroups (claims : Json) (claim : String) : List String :=
  match claims.get claim with
  | some (.array items) => items.filterMap Json.asStr
  | _ => []

/-- `JwtVerifier`. `decode` is `jsonwebtoken::decode` under the configured key and validation: the
claims of a token whose signature, algorithm, expiry, issuer and audience it accepts. -/
structure JwtVerifier where
  decode : String → Option Json
  groupsClaim : String

/-- `JwtVerifier::verify`: the groups of a token that verifies. -/
def JwtVerifier.verify (V : JwtVerifier) (token : String) : Option (List String) := do
  let claims ← V.decode token
  return extractGroups claims V.groupsClaim

/-- The task-locals once a token has verified. -/
def jwtContext (groups : List String) : AuthContext :=
  { AuthContext.initial with authGroups := some (.resolved groups) }

/-- The password step of `CredentialStartupHandler::on_startup` with the `Jwt` backend. -/
def Server.jwtLogin (S : Server) (V : JwtVerifier) (info : StartupInfo) (token : String) :
    Except LoginError Session :=
  match V.verify token with
  | none => .error (.invalidPassword info.user)
  | some groups =>
    (S.startupObserver info (jwtContext groups)).mapError .rejected

section Facts

variable {S : Server} {V : JwtVerifier} {info : StartupInfo} {token : String} {s : Session}

theorem jwtLogin_ok (h : S.jwtLogin V info token = .ok s) : ∃ groups, V.verify token = some groups ∧
      s.identity = S.sessionIdentity info (jwtContext groups) ∧
      s.principal.canAdmin =
        (S.sessionPrincipal info (jwtContext groups)).canAdmin := by
  unfold Server.jwtLogin at h
  split at h
  · cases h
  next groups hg =>
    obtain ⟨-, rfl⟩ := Server.startupObserver_ok.mp (Except.mapError_ok_iff.mp h)
    exact ⟨groups, hg, rfl, rfl⟩

end Facts

/-- **One token, two usernames.** Two connections that a token is accepted on have the same identity
and the same right to run control-plane DDL exactly when they assert the same username. -/
theorem jwtLogin_same_session_iff (S : Server) (V : JwtVerifier) (token : String)
    (info₁ info₂ : StartupInfo) (s₁ s₂ : Session)
    (h₁ : S.jwtLogin V info₁ token = .ok s₁) (h₂ : S.jwtLogin V info₂ token = .ok s₂) :
    (s₁.identity = s₂.identity ∧ s₁.principal.canAdmin = s₂.principal.canAdmin) ↔
      info₁.user = info₂.user := by
  obtain ⟨groups, hg₁, hid₁, ha₁⟩ := jwtLogin_ok h₁
  obtain ⟨groups', hg₂, hid₂, ha₂⟩ := jwtLogin_ok h₂
  obtain rfl : groups = groups' := Option.some.inj (hg₁.symm.trans hg₂)
  rw [hid₁, hid₂, ha₁, ha₂]
  constructor
  · rintro ⟨hid, -⟩
    have hus := congrArg Identity.user hid
    rw [Server.sessionIdentity_user, Server.sessionIdentity_user] at hus
    split_ifs at hus with hu₁ hu₂ hu₂
    · rw [hu₁, hu₂]
    · exact Option.some.inj hus
  · intro hu
    obtain ⟨hid, ha⟩ := S.session_congr (jwtContext groups) hu
    exact ⟨hid, by rw [ha]⟩

/-- A server with one configured administrator, `root` of org `acme`. -/
def oneAdminServer : Server where
  config := ⟨"pg", "public", .jwt, .grant, AList.singleton "root" ⟨some "acme", ["operators"], none⟩, ∅⟩
  bootOrg := "default"
  catalogs := fun _ => ["pg"]

/-- A verifier that accepts one token, issued to `alice`. -/
def aliceVerifier : JwtVerifier where
  decode := fun token => if token = "alice-token" then
    some (.object [("sub", .string "alice"), ("groups", .array [.string "analyst"])]) else none
  groupsClaim := "groups"

theorem jwtLogin_same_user_twice : ∃ s₁ s₂,
    oneAdminServer.jwtLogin aliceVerifier ⟨"alice", none⟩ "alice-token" = .ok s₁ ∧
    oneAdminServer.jwtLogin aliceVerifier ⟨"alice", some "pg"⟩ "alice-token" = .ok s₂ ∧
    s₁.identity = s₂.identity ∧ s₁.principal.canAdmin = s₂.principal.canAdmin :=
  ⟨_, _, rfl, rfl, (jwtLogin_same_session_iff oneAdminServer aliceVerifier "alice-token" ⟨"alice", none⟩
    ⟨"alice", some "pg"⟩ _ _ rfl rfl).mpr rfl⟩

/-- Alice's token opens a session as `root`: another user, another org, and the admin surface. -/
theorem jwtLogin_as_configured_admin : ∃ s₁ s₂,
    oneAdminServer.jwtLogin aliceVerifier ⟨"alice", none⟩ "alice-token" = .ok s₁ ∧
    oneAdminServer.jwtLogin aliceVerifier ⟨"root", none⟩ "alice-token" = .ok s₂ ∧
    s₁.identity.user = some "alice" ∧ s₂.identity.user = some "root" ∧
    s₁.identity.org = some "default" ∧ s₂.identity.org = some "acme" ∧
    s₁.principal.canAdmin = false ∧ s₂.principal.canAdmin = true :=
  ⟨_, _, rfl, rfl, rfl, rfl, rfl, rfl, rfl, rfl⟩

end Dataglot
