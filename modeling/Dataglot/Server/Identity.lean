/-
How a connection's username becomes an identity (`config.rs`): the configured
profile gives the org and the groups, and the configured roles an identity
holds join its groups. A Rust `HashMap` is an `AList`, so no key stands twice;
its entries are in the order the map iterates.
-/
import Dataglot.Policy.Rule

namespace Dataglot

/-- `HashMap<String, V>`. -/
abbrev HashMap (V : Type) := AList fun _ : String => V

/-- `IdentityProfileConfig`: one user of the `[identities]` table. -/
structure IdentityProfileConfig where
  org : Option String
  groups : List String
  passwordEnv : Option String
  deriving DecidableEq, Repr

/-- `RoleConfig`: the users and the groups that hold a role. -/
structure RoleConfig where
  users : List String
  groups : List String
  deriving DecidableEq, Repr

def resolveIdentity (user : String) (profiles : HashMap IdentityProfileConfig) : Identity :=
  if user.isEmpty then .anonymous
  else
    match profiles.lookup user with
    | none => .ofUser user
    | some profile =>
      let id := match profile.org with
        | some org => (Identity.ofUser user).withOrg org
        | none => .ofUser user
      if profile.groups.isEmpty then id else id.withGroups profile.groups

def identityHoldsRole (id : Identity) (role : RoleConfig) : Bool :=
  (match id.user with
    | some user => role.users.any fun u => u == user
    | none => false) ||
  role.groups.any fun g => id.orgGroups.any fun og => og == g

/-- `fold_roles_into_groups`: the names of the roles an identity holds become groups of it. -/
def foldRolesIntoGroups (id : Identity) (roles : HashMap RoleConfig) : Identity :=
  if id.isAnonymous || roles.entries.isEmpty then id
  else
    let groups := roles.entries.foldl (fun groups entry =>
      if identityHoldsRole id entry.2 && !groups.contains entry.1 then groups ++ [entry.1] else groups)
      id.orgGroups
    if groups.length = id.orgGroups.length then id else id.withGroups groups

def resolveIdentityWithRoles (user : String) (profiles : HashMap IdentityProfileConfig)
    (roles : HashMap RoleConfig) : Identity :=
  foldRolesIntoGroups (resolveIdentity user profiles) roles

/-! ## What resolution leaves alone -/

section Fields

variable (id : Identity) (profiles : HashMap IdentityProfileConfig) (roles : HashMap RoleConfig)

@[simp] theorem foldRolesIntoGroups_user : (foldRolesIntoGroups id roles).user = id.user := by
  simp only [foldRolesIntoGroups]
  split_ifs <;> rfl

@[simp] theorem foldRolesIntoGroups_org : (foldRolesIntoGroups id roles).org = id.org := by
  simp only [foldRolesIntoGroups]
  split_ifs <;> rfl

@[simp] theorem foldRolesIntoGroups_roles : (foldRolesIntoGroups id roles).roles = id.roles := by
  simp only [foldRolesIntoGroups]
  split_ifs <;> rfl

@[simp] theorem foldRolesIntoGroups_isSuperuser : (foldRolesIntoGroups id roles).isSuperuser = id.isSuperuser := by
  simp only [foldRolesIntoGroups]
  split_ifs <;> rfl

theorem resolveIdentity_cases (user) : (user = "" ∧ resolveIdentity user profiles = .anonymous) ∨
      (user ≠ "" ∧ (resolveIdentity user profiles).user = some user ∧
        (resolveIdentity user profiles).org = (profiles.lookup user).bind (·.org)) := by
  by_cases hu : user = ""
  · exact .inl ⟨hu, by simp [resolveIdentity, hu]⟩
  · refine .inr ⟨hu, ?_⟩
    have hne : user.isEmpty = false := by simpa using hu
    simp only [resolveIdentity, hne, Bool.false_eq_true, if_false]
    cases profiles.lookup user with
    | none => exact ⟨rfl, rfl⟩
    | some profile =>
      obtain ⟨_ | org, groups, _⟩ := profile <;> dsimp only <;> split_ifs <;> exact ⟨rfl, rfl⟩

theorem resolveIdentity_unprivileged (user) :
    (resolveIdentity user profiles).roles = [] ∧ (resolveIdentity user profiles).isSuperuser = false := by
  unfold resolveIdentity
  split_ifs
  · exact ⟨rfl, rfl⟩
  split
  · exact ⟨rfl, rfl⟩
  next profile _ =>
    obtain ⟨_ | org, groups, _⟩ := profile <;> dsimp only <;> split_ifs <;> exact ⟨rfl, rfl⟩

end Fields

end Dataglot
