/-
Folding the roles of an identity into its groups (`fold_roles_into_groups` in `config.rs`).

Whether a role is held is asked of the identity as it was, so the order of the roles makes
no difference. The names that are folded in are groups from then on, and a role may have one
of them as a member group: folding once more adds it.
-/
import Dataglot.Server.Identity

namespace Dataglot

variable {id : Identity} {roles : HashMap RoleConfig} {name g : String} {role : RoleConfig}

theorem identityHoldsRole_iff : identityHoldsRole id role = true ↔
    (∃ user, id.user = some user ∧ user ∈ role.users) ∨ ∃ g ∈ role.groups, g ∈ id.orgGroups := by
  unfold identityHoldsRole
  cases id.user <;> simp

theorem exists_foldl_groups (held : RoleConfig → Bool) : ∀ (entries : List (Sigma fun _ : String => RoleConfig))
    groups, ∃ more, entries.foldl (fun groups entry =>
        if held entry.2 && !groups.contains entry.1 then groups ++ [entry.1] else groups) groups = groups ++ more ∧
      ∀ g, g ∈ groups ++ more ↔ g ∈ groups ∨ ∃ e ∈ entries, e.1 = g ∧ held e.2 = true
  | [], groups => ⟨[], by simp⟩
  | e :: entries, groups => by
    by_cases ha : (held e.2 && !groups.contains e.1) = true
    · obtain ⟨more, hm, hme⟩ := exists_foldl_groups held entries (groups ++ [e.1])
      have hheld : held e.2 = true := (Bool.and_eq_true_iff.mp ha).1
      refine ⟨e.1 :: more, ?_, fun g => ?_⟩
      · rw [List.foldl_cons, if_pos ha, hm, List.append_assoc]
        rfl
      · have h := hme g
        grind
    · obtain ⟨more, hm, hme⟩ := exists_foldl_groups held entries groups
      refine ⟨more, ?_, fun g => ?_⟩
      · rw [List.foldl_cons, if_neg ha, hm]
      · have h := hme g
        grind

/-- The groups after folding: those of the identity, and the roles that it holds. -/
theorem mem_foldRoles : g ∈ (foldRolesIntoGroups id roles).orgGroups ↔
    g ∈ id.orgGroups ∨ id.isAnonymous = false ∧ ∃ role, roles.lookup g = some role ∧ identityHoldsRole id role = true := by
  obtain ⟨more, hm, hme⟩ := exists_foldl_groups (identityHoldsRole id) roles.entries id.orgGroups
  have hl : (∃ e ∈ roles.entries, e.1 = g ∧ identityHoldsRole id e.2 = true) ↔
      ∃ role, roles.lookup g = some role ∧ identityHoldsRole id role = true := by
    constructor
    · rintro ⟨⟨_, role⟩, he, rfl, hh⟩
      exact ⟨role, AList.mem_lookup_iff.mpr he, hh⟩
    · rintro ⟨role, hr, hh⟩
      exact ⟨⟨g, role⟩, AList.mem_lookup_iff.mp hr, rfl, hh⟩
  rw [← hl]
  unfold foldRolesIntoGroups
  dsimp only
  rw [hm]
  split_ifs with hs hle
  · obtain ha | hem := Bool.or_eq_true_iff.mp hs
    · simp [ha]
    · simp [List.isEmpty_iff.mp hem]
  · obtain rfl : more = [] := by simpa using hle
    have h := hme g
    simp_all
  · have h := hme g
    simp_all [Identity.withGroups]

theorem isAnonymous_foldRoles : (foldRolesIntoGroups id roles).isAnonymous = id.isAnonymous := by
  by_cases h : id.isAnonymous = true
  · simp [foldRolesIntoGroups, h]
  · have hkept : ∀ g ∈ id.orgGroups, (foldRolesIntoGroups id roles).orgGroups ≠ [] :=
      fun g hg => List.ne_nil_of_mem (mem_foldRoles.mpr (.inl hg))
    unfold Identity.isAnonymous at h ⊢
    rw [foldRolesIntoGroups_user, foldRolesIntoGroups_org]
    cases hgroups : id.orgGroups with
    | nil => simp_all
    | cons g _ => simp_all

def SameGroups (a b : Identity) : Prop := ∀ g, g ∈ a.orgGroups ↔ g ∈ b.orgGroups

/-- The name of a held role becomes a group. -/
def FoldedIn (id : Identity) (roles : HashMap RoleConfig) (g : String) : Prop :=
  ∃ role, roles.lookup g = some role ∧ identityHoldsRole id role = true

/-- The order in which the map iterates makes no difference to the set of groups. Folding again makes none iff no role
has as a member group the name of a role that is folded in, unless it is held already or a group of the identity. -/
theorem fold_roles_settled_iff (id : Identity) (roles : HashMap RoleConfig) :
    (∀ roles' : HashMap RoleConfig, roles'.entries.Perm roles.entries →
      SameGroups (foldRolesIntoGroups id roles') (foldRolesIntoGroups id roles)) ∧
    (SameGroups (foldRolesIntoGroups (foldRolesIntoGroups id roles) roles) (foldRolesIntoGroups id roles) ↔
      id.isAnonymous = true ∨ ∀ name role, roles.lookup name = some role → ∀ g ∈ role.groups, FoldedIn id roles g →
        name ∈ id.orgGroups ∨ identityHoldsRole id role = true) := by
  constructor
  · intro roles' hp g
    simp [mem_foldRoles, AList.perm_lookup hp]
  · by_cases ha : id.isAnonymous = true
    · have hsa : foldRolesIntoGroups id roles = id := by simp [foldRolesIntoGroups, ha]
      simp [ha, hsa, SameGroups]
    · have hfa : id.isAnonymous = false := by simpa using ha
      rw [or_iff_right ha]
      constructor
      · intro hsa name role hr g hg hf
        have hh : identityHoldsRole (foldRolesIntoGroups id roles) role = true :=
          identityHoldsRole_iff.mpr (.inr ⟨g, hg, mem_foldRoles.mpr (.inr ⟨hfa, hf⟩)⟩)
        have hname := (hsa name).mp (mem_foldRoles.mpr (.inr ⟨isAnonymous_foldRoles.trans hfa, role, hr, hh⟩))
        obtain hgr | ⟨-, role', hr', hh'⟩ := mem_foldRoles.mp hname
        · exact .inl hgr
        · cases hr.symm.trans hr'
          exact .inr hh'
      · intro hs name
        refine ⟨fun hname => ?_, fun hname => mem_foldRoles.mpr (.inl hname)⟩
        obtain hgr | ⟨-, role, hr, hh⟩ := mem_foldRoles.mp hname
        · exact hgr
        · refine mem_foldRoles.mpr ?_
          suffices h : name ∈ id.orgGroups ∨ identityHoldsRole id role = true from
            h.imp_right fun hh => ⟨hfa, role, hr, hh⟩
          obtain ⟨user, hu, hm⟩ | ⟨g, hg, hm⟩ := identityHoldsRole_iff.mp hh
          · rw [foldRolesIntoGroups_user] at hu
            exact .inr (identityHoldsRole_iff.mpr (.inl ⟨user, hu, hm⟩))
          · obtain ho | ⟨-, hf⟩ := mem_foldRoles.mp hm
            · exact .inr (identityHoldsRole_iff.mpr (.inr ⟨g, hg, ho⟩))
            · exact hs name role hr g hg hf

/-- Ann holds `analysts`, and the analysts hold `readers`: the second folding adds what the first one did not. -/
theorem folding_again_adds :
    let roles : HashMap RoleConfig :=
      (AList.singleton "analysts" ⟨["ann"], []⟩).insert "readers" ⟨[], ["analysts"]⟩
    let once := foldRolesIntoGroups (.ofUser "ann") roles
    once.orgGroups = ["analysts"] ∧ (foldRolesIntoGroups once roles).orgGroups = ["analysts", "readers"] := by
  decide

end Dataglot
