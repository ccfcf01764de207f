/-
The maps per org of `EmbeddedMetaStore` and the tables of `RedbMetaStore`, write by write.

The tables have what the maps have (`Holds`): for an entry its document, for a grant the
grant under its key, for a role or a member of one a mark. Every mutation keeps it so and
returns and emits the same (`agreesOn_of_readsBack`), unless it has to read an entry whose
document is too deep for `serde_json` (`mutate_fails`).
-/
import Dataglot.Catalog.RedbStore

namespace Dataglot

open RedbMetaStore TableFamily OrderedTable Option Function Finmap

/-! ## The same objects -/

namespace EmbeddedMetaStore

def Entry.document (e : Entry) : EntryDocument := ser ⟨e.binding, e.sourceConfig⟩

def State.org (s : State) (org : String) : OrgState := (s.orgs.lookup org).getD .default

/-- What a table has of an org, under what name. -/
def OrgState.Stored (o : OrgState) : (t : TableDefinition) → t.Name → t.Value → Prop
  | .entries, name, doc => ∃ e, o.entries.lookup name = some e ∧ e.document = doc
  | .secrets, name, ciphertext => o.secrets.lookup name = some ciphertext
  | .users, name, user => o.users.lookup name = some user
  | .roles, name, mark => name ∈ o.roles ∧ mark = 1
  | .roleMembers, key, mark => (ofLex key).2 ∈ (o.roleMembers.lookup (ofLex key).1).getD ∅ ∧ mark = 1
  | .policies, name, policy => o.policies.lookup name = some policy
  | .grants, key, grant => grant ∈ o.grants ∧ grantKey grant = key
  | .products, name, product => o.derivedProducts.lookup name = some product

def OrgState.Owns (o : OrgState) : Prop := ∃ t name v, o.Stored t name v

theorem OrgState.not_stored_default (t name v) :
    ¬ OrgState.default.Stored t name v := by
  cases t <;> simp [Stored, OrgState.default]

/-- The tables have what the maps have. -/
def Holds (s : State) (db : Tables) : Prop :=
  ∀ t org name v, db.get (cell t org name) = some v ↔ (s.org org).Stored t name v

section Fields

variable {A : Type} [EmptyCollection A] {F : Field A} {t : TableDefinition} {s : State} {db : Tables} {org : String}

/-- The field of an org that a table is about. -/
structure FieldOf (F : Field A) (t : TableDefinition) (Has : A → t.Name → t.Value → Prop) : Prop where
  stored : ∀ o name v, o.Stored t name v ↔ Has (F.get o) name v
  apart : ∀ a o t', t' ≠ t → ∀ name v, (F.set a o).Stored t' name v ↔ o.Stored t' name v

theorem org_update_self (f) : (s.update F org f).org org = F.set (f (s.field F org)) (s.org org) := by
  unfold State.update State.org
  rw [lookup_insert]
  rfl

theorem org_update_of_ne {org'} (hne : org' ≠ org) (f) : (s.update F org f).org org' = s.org org' := by
  unfold State.update State.org
  rw [lookup_insert_of_ne _ hne]

theorem holds_update {Has} (hF : FieldOf F t Has) (h : Holds s db) {name v f}
    (hs : ∀ v', Has (f (s.field F org)) name v' ↔ v = some v')
    (ho : ∀ name' v', name' ≠ name → (Has (f (s.field F org)) name' v' ↔ Has (s.field F org) name' v')) :
    Holds (s.update F org f) (db.set (cell t org name) v) := by
  intro t' org' name' v'
  have hg : F.get (F.set (f (s.field F org)) (s.org org)) = f (s.field F org) := F.get_set _ _
  by_cases hc : cell t' org' name' = cell t org name
  · cases hc
    rw [Tables.get_set_self, org_update_self, hF.stored, hg]
    exact (hs v').symm
  · rw [Tables.get_set_of_ne hc, h]
    by_cases hor : org' = org
    · subst hor
      rw [org_update_self]
      by_cases ht : t' = t
      · subst ht
        have hname : name' ≠ name := fun hname => hc (hname ▸ rfl)
        rw [hF.stored, hF.stored, hg]
        exact (ho name' v' hname).symm
      · exact (hF.apart _ _ t' ht name' v').symm
    · rw [org_update_of_ne hor]

end Fields

/-! ## Writes -/

/-- A table that has the entries of a map, each as what stands for it. -/
def Under {V : Type} {t : TableDefinition} (key : t.Name → String) (enc : V → t.Value) (m : StoreMap V) (name : t.Name)
    (v : t.Value) : Prop := ∃ e, m.lookup (key name) = some e ∧ enc e = v

theorem fieldOf_entries : FieldOf .entries .entries (Under (fun name => name) Entry.document) :=
  ⟨fun _ _ _ => Iff.rfl, fun _ _ t' ht => by cases t' <;> first | exact absurd rfl ht | exact fun _ _ => Iff.rfl⟩

theorem fieldOf_secrets : FieldOf .secrets .secrets (Under (fun name => name) fun ciphertext => ciphertext) :=
  ⟨by simp [Under, OrgState.Stored, Field.secrets],
    fun _ _ t' ht => by cases t' <;> first | exact absurd rfl ht | exact fun _ _ => Iff.rfl⟩

theorem fieldOf_users : FieldOf .users .users (Under (fun name => name) fun user => user) :=
  ⟨by simp [Under, OrgState.Stored, Field.users],
    fun _ _ t' ht => by cases t' <;> first | exact absurd rfl ht | exact fun _ _ => Iff.rfl⟩

theorem fieldOf_policies : FieldOf .policies .policies (Under (fun name => name) fun policy => policy) :=
  ⟨by simp [Under, OrgState.Stored, Field.policies],
    fun _ _ t' ht => by cases t' <;> first | exact absurd rfl ht | exact fun _ _ => Iff.rfl⟩

theorem fieldOf_products : FieldOf .derivedProducts .products (Under (fun name => name) fun product => product) :=
  ⟨by simp [Under, OrgState.Stored, Field.derivedProducts],
    fun _ _ t' ht => by cases t' <;> first | exact absurd rfl ht | exact fun _ _ => Iff.rfl⟩

theorem fieldOf_roles : FieldOf .roles .roles fun m name mark => name ∈ m ∧ mark = 1 :=
  ⟨fun _ _ _ => Iff.rfl, fun _ _ t' ht => by cases t' <;> first | exact absurd rfl ht | exact fun _ _ => Iff.rfl⟩

theorem fieldOf_grants : FieldOf .grants .grants fun m key grant => grant ∈ m ∧ grantKey grant = key :=
  ⟨fun _ _ _ => Iff.rfl, fun _ _ t' ht => by cases t' <;> first | exact absurd rfl ht | exact fun _ _ => Iff.rfl⟩

theorem fieldOf_roleMembers : FieldOf .roleMembers .roleMembers fun m key mark =>
    (ofLex key).2 ∈ (m.lookup (ofLex key).1).getD ∅ ∧ mark = 1 :=
  ⟨fun _ _ _ => Iff.rfl, fun _ _ t' ht => by cases t' <;> first | exact absurd rfl ht | exact fun _ _ => Iff.rfl⟩

section Removals

variable {A V : Type} {s : State} {db : Tables} {org : String}

/-- A write of what is there makes a difference only to which orgs are known. -/
theorem holds_of_update [EmptyCollection A] {F} {f : A → A} (hs : f (s.field F org) = s.field F org)
    (h : Holds (s.update F org f) db) : Holds s db := by
  intro t org' name v
  rw [h]
  by_cases ho : org' = org
  · subst ho
    have hse : F.set (s.field F org') (s.org org') = s.org org' := F.set_get _
    rw [org_update_self, hs, hse]
  · rw [org_update_of_ne ho]

theorem holds_remove {F : Field (StoreMap V)} {name : String}
    (h : Holds (s.update F org fun m => m.erase name) db) : Holds (s.remove F org name).1 db := by
  unfold State.remove
  split_ifs with hf
  · exact h
  · refine holds_of_update (ext_lookup fun name' => ?_) h
    by_cases hname : name' = name
    · rw [hname, lookup_erase]
      exact (not_isSome_iff_eq_none.mp hf).symm
    · rw [lookup_erase_ne hname]

theorem holds_discard [DecidableEq A] {F} {a : A}
    (h : Holds (s.update F org fun m => m.erase a) db) : Holds (s.discard F org a).1 db := by
  unfold State.discard
  split_ifs with hm
  · exact h
  · exact holds_of_update (Finset.erase_eq_of_notMem hm) h

end Removals

namespace Holds

variable {s : State} {db : Tables} {org name : String}

theorem isSome_get {t name P} [Decidable P] (h : Holds s db)
    (hP : P ↔ ∃ v, (s.org org).Stored t name v) : (db.get (cell t org name)).isSome = decide P := by
  rw [Bool.eq_iff_iff, decide_eq_true_iff, hP, isSome_iff_exists]
  exact exists_congr fun v => h t org name v

theorem isSome_get_roles (h : Holds s db) :
    (db.get (cell .roles org name)).isSome = decide (name ∈ s.field .roles org) :=
  h.isSome_get ⟨fun hm => ⟨1, hm, rfl⟩, fun ⟨_, hm, _⟩ => hm⟩

theorem isSome_get_grants (h : Holds s db) {grant} :
    (db.get (cell .grants org (grantKey grant))).isSome = decide (grant ∈ s.field .grants org) :=
  h.isSome_get ⟨fun hm => ⟨grant, hm, rfl⟩, fun ⟨_, hm, hk⟩ => grantKey_injective hk ▸ hm⟩

theorem isSome_get_roleMembers (h : Holds s db) {role user} :
    (db.get (cell .roleMembers org (toLex (role, user)))).isSome =
      decide (user ∈ (s.find .roleMembers org role).getD ∅) :=
  h.isSome_get ⟨fun hm => ⟨1, hm, rfl⟩, fun ⟨_, hm, _⟩ => hm⟩

end Holds

/-- The document of the entry can be read again. -/
def Entry.ReadsBack (e : Entry) : Prop := withinLimit e.document.sourceConfig = true

/-- A mutation without faults: it returns, emits and leaves the same. -/
def AgreesOn (s : State) (db : Tables) (m : Mutation) : Prop :=
  ∃ db', (mutate m).alone Tables.exec db =
      ((.ok (m.change s).reply, if (m.change s).persisted then m.emits else none), db') ∧
    Holds (m.change s).state db'

section Writes

variable {s : State} {db : Tables} {org name : String}

section Maps

variable {V : Type} {F : Field (StoreMap V)} {t : TableDefinition} {key : t.Name → String} {enc : V → t.Value}

theorem holds_put (hF : FieldOf F t (Under key enc)) (hk : Injective key) (h : Holds s db) (name e) : Holds (s.put F org (key name) e) (db.set (cell t org name) (some (enc e))) := by
  refine holds_update hF h (fun v => ?_) fun name' v hne => ?_
  · unfold Under
    rw [lookup_insert, some.injEq]
    constructor
    · rintro ⟨_, he, rfl⟩
      rw [some.inj he]
    · intro hv
      exact ⟨e, rfl, hv⟩
  · unfold Under
    rw [lookup_insert_of_ne _ (hk.ne hne)]

theorem holds_delete (hF : FieldOf F t (Under key enc)) (hk : Injective key) (h : Holds s db)
    (name) : Holds (s.remove F org (key name)).1 (db.set (cell t org name) none) := by
  refine holds_remove (holds_update hF h (fun v => ?_) fun name' v hne => ?_)
  · simp [Under, lookup_erase]
  · unfold Under
    rw [lookup_erase_ne (hk.ne hne)]

theorem Holds.get_map (hF : FieldOf F t (Under key enc)) (h : Holds s db) (name) :
    db.get (cell t org name) = (s.find F org (key name)).map enc := by
  refine ext fun v => (h t org name v).trans ?_
  rw [hF.stored, map_eq_some_iff]
  rfl

theorem Holds.isSome_get_map (hF : FieldOf F t (Under key enc)) (h : Holds s db) (name) :
    (db.get (cell t org name)).isSome = (s.remove F org (key name)).2 := by
  rw [h.get_map hF, isSome_map, State.remove_snd]

end Maps

theorem agreesOn_upsertBinding (h : Holds s db) (binding : CatalogBinding)
    (hr : ∀ e, s.find .entries org name = some e → e.ReadsBack) :
    AgreesOn s db (.upsertBinding org name binding) := by
  have hg : db.get (cell .entries org name) = _ := h.get_map fieldOf_entries name
  cases hf : s.find .entries org name with
  | none =>
    have hc : (Mutation.upsertBinding org name binding).change s =
        ⟨s.put .entries org name ⟨binding, none⟩, true, none⟩ := by simp [Mutation.change, State.upsertBinding, hf]
    rw [hf] at hg
    unfold AgreesOn
    rw [hc]
    exact ⟨_, alone_upsertBinding_of_none hg binding, holds_put fieldOf_entries injective_id h name _⟩
  | some e =>
    have hc : (Mutation.upsertBinding org name binding).change s =
        ⟨s.put .entries org name { e with binding }, true, some e.binding⟩ := by
      simp [Mutation.change, State.upsertBinding, hf]
    rw [hf] at hg
    unfold AgreesOn
    rw [hc]
    exact ⟨_, (alone_upsertBinding_of_some hg binding).trans (if_pos (hr e hf)), holds_put fieldOf_entries injective_id h name _⟩

theorem agreesOn_setSourceConfig (h : Holds s db) (config : Json)
    (hr : ∀ e, s.find .entries org name = some e → e.ReadsBack) :
    AgreesOn s db (.setSourceConfig org name config) := by
  have hg : db.get (cell .entries org name) = _ := h.get_map fieldOf_entries name
  cases hf : s.find .entries org name with
  | none =>
    have hc : (Mutation.setSourceConfig org name config).change s = ⟨s, false, ()⟩ := by
      simp [Mutation.change, State.setSourceConfig, hf]
    rw [hf] at hg
    unfold AgreesOn
    rw [hc]
    exact ⟨_, alone_setSourceConfig_of_none hg config, h⟩
  | some e =>
    have hc : (Mutation.setSourceConfig org name config).change s =
        ⟨s.put .entries org name { e with sourceConfig := some config }, true, ()⟩ := by
      simp [Mutation.change, State.setSourceConfig, hf]
    rw [hf] at hg
    unfold AgreesOn
    rw [hc]
    exact ⟨_, (alone_setSourceConfig_of_some hg config).trans (if_pos (hr e hf)), holds_put fieldOf_entries injective_id h name _⟩

theorem holds_addRoleMember (h : Holds s db) (role user : String) :
    Holds (s.addRoleMember org role user) (db.set (cell .roleMembers org (toLex (role, user))) (some (1 : UInt8))) := by
  refine holds_update fieldOf_roleMembers h (fun mark => ?_) fun key mark hne => ?_
  · simp [Finmap.lookup_insert, eq_comm]
  · by_cases hr : (ofLex key).1 = role
    · have hu : (ofLex key).2 ≠ user := fun hu => hne (hr ▸ hu ▸ rfl)
      rw [hr, Finmap.lookup_insert, getD_some, Finset.mem_insert, or_iff_right hu]
      rfl
    · rw [Finmap.lookup_insert_of_ne _ hr]

theorem holds_loses_member (h : Holds s db) {role user f}
    (hr : ((f (s.field .roleMembers org)).lookup role).getD ∅ = ((s.find .roleMembers org role).getD ∅).erase user)
    (ho : ∀ role', role' ≠ role → (f (s.field .roleMembers org)).lookup role' = s.find .roleMembers org role') :
    Holds (s.update .roleMembers org f) (db.set (cell .roleMembers org (toLex (role, user))) none) := by
  refine holds_update fieldOf_roleMembers h (fun mark => ?_) fun key mark hne => ?_
  · simp [hr]
  · by_cases hk : (ofLex key).1 = role
    · have hu : (ofLex key).2 ≠ user := fun hu => hne (hk ▸ hu ▸ rfl)
      rw [hk, hr, Finset.mem_erase, and_iff_right hu]
      rfl
    · rw [ho _ hk]
      rfl

theorem holds_removeRoleMember (h : Holds s db) (role user) :
    Holds (s.removeRoleMember org role user).1 (db.set (cell .roleMembers org (toLex (role, user))) none) := by
  have hn (hm : user ∉ (s.find .roleMembers org role).getD ∅) :
      Holds s (db.set (cell .roleMembers org (toLex (role, user))) none) :=
    holds_of_update rfl (holds_loses_member (f := fun m => m) h (Finset.erase_eq_of_notMem hm).symm fun _ _ => rfl)
  unfold State.removeRoleMember
  cases hf : s.find .roleMembers org role with
  | none => exact hn (by simp [hf])
  | some members =>
    dsimp only
    split_ifs with hm hlast
    · refine holds_remove (holds_loses_member h ?_ fun role' hne => lookup_erase_ne hne)
      rw [lookup_erase, hf]
      exact hlast.symm
    · refine holds_loses_member h ?_ fun role' hne => lookup_insert_of_ne _ hne
      rw [lookup_insert, hf]
      rfl
    · exact hn (by simpa [hf] using hm)

/-- The mutations that read an entry before they write it. -/
def Mutation.ReadsBack (s : State) : Mutation → Prop
  | .upsertBinding org name _ | .setSourceConfig org name _ =>
    ∀ e, s.find .entries org name = some e → e.ReadsBack
  | _ => True

theorem alone_removeKey {removed t name} (he : (db.get (cell t org name)).isSome = removed.2) :
    (removeKey t org name).alone Tables.exec db =
      ((.ok (Mutation.ifExisted removed).reply, if (Mutation.ifExisted removed).persisted then none else none),
        db.set (cell t org name) none) := by
  obtain ⟨s', existed⟩ := removed
  subst he
  rw [ite_self]
  rfl

theorem alone_deleteBinding {removed} (he : (db.get (cell .entries org name)).isSome = removed.2) :
    (deleteBinding org name).alone Tables.exec db = ((.ok (Mutation.ifExisted removed).reply,
        if (Mutation.ifExisted removed).persisted then some ⟨org, name, .deleted⟩ else none),
        db.set (cell .entries org name) none) := by
  obtain ⟨s', existed⟩ := removed
  subst he
  rfl

theorem agreesOn_of_readsBack (h : Holds s db) {m : Mutation} (hr : m.ReadsBack s) : AgreesOn s db m := by
  cases m with
  | upsertBinding org name binding => exact agreesOn_upsertBinding h binding hr
  | setSourceConfig org name config => exact agreesOn_setSourceConfig h config hr
  | deleteBinding org name =>
    exact ⟨_, alone_deleteBinding (h.isSome_get_map fieldOf_entries name),
      holds_delete fieldOf_entries injective_id h name⟩
  | putSecret org name ciphertext => exact ⟨_, rfl, holds_put fieldOf_secrets injective_id h name ciphertext⟩
  | deleteSecret org name =>
    exact ⟨_, alone_removeKey (h.isSome_get_map fieldOf_secrets name),
      holds_delete fieldOf_secrets injective_id h name⟩
  | putUser org name passwordHash isSuperuser =>
    exact ⟨_, rfl, holds_put fieldOf_users injective_id h name (passwordHash, isSuperuser)⟩
  | deleteUser org name =>
    exact ⟨_, alone_removeKey (h.isSome_get_map fieldOf_users name),
      holds_delete fieldOf_users injective_id h name⟩
  | putRole org name =>
    refine ⟨_, rfl, holds_update fieldOf_roles h (fun mark => ?_) fun name' mark hne => ?_⟩
    · simp [eq_comm]
    · rw [Finset.mem_insert, or_iff_right hne]
  | deleteRole org name =>
    refine ⟨_, alone_removeKey (h.isSome_get_roles.trans State.discard_snd.symm),
      holds_discard (holds_update fieldOf_roles h (fun mark => ?_) fun name' mark hne => ?_)⟩
    · simp
    · rw [Finset.mem_erase, and_iff_right hne]
  | putPolicy org name kind rule =>
    exact ⟨_, rfl, holds_put fieldOf_policies injective_id h name (kind, rule)⟩
  | deletePolicy org name =>
    exact ⟨_, alone_removeKey (h.isSome_get_map fieldOf_policies name),
      holds_delete fieldOf_policies injective_id h name⟩
  | putGrant org grant =>
    refine ⟨_, rfl, holds_update fieldOf_grants h (fun g => ?_) fun key g hne => ?_⟩
    · constructor
      · rintro ⟨-, hk⟩
        rw [grantKey_injective hk]
      · rintro ⟨⟩
        exact ⟨Finset.mem_insert_self _ _, rfl⟩
    · refine and_congr_left fun hk => ?_
      have hg : g ≠ grant := fun hg => hne (hg ▸ hk.symm)
      rw [Finset.mem_insert, or_iff_right hg]
  | deleteGrant org grant =>
    refine ⟨_, alone_removeKey (h.isSome_get_grants.trans State.discard_snd.symm),
      holds_discard (holds_update fieldOf_grants h (fun g => ?_) fun key g hne => ?_)⟩
    · refine iff_of_false ?_ (by simp)
      rintro ⟨hm, hk⟩
      exact Finset.ne_of_mem_erase hm (grantKey_injective hk)
    · refine and_congr_left fun hk => ?_
      have hg : g ≠ grant := fun hg => hne (hg ▸ hk.symm)
      rw [Finset.mem_erase, and_iff_right hg]
  | putDerivedProduct org product =>
    exact ⟨_, rfl, holds_put fieldOf_products injective_id h product.name product⟩
  | deleteDerivedProduct org name =>
    exact ⟨_, alone_removeKey (h.isSome_get_map fieldOf_products name),
      holds_delete fieldOf_products injective_id h name⟩
  | addRoleMember org role user => exact ⟨_, rfl, holds_addRoleMember h role user⟩
  | removeRoleMember org role user =>
    exact ⟨_, alone_removeKey (h.isSome_get_roleMembers.trans State.removeRoleMember_snd.symm),
      holds_removeRoleMember h role user⟩

end Writes

/-- A mutation that finds an entry it cannot read fails, where the other store goes on. -/
theorem mutate_fails {s db} (h : Holds s db) {m} (hd : ¬ m.ReadsBack s) :
    ((mutate m).alone Tables.exec db).1.1 = .error recursionLimit := by
  cases m with
  | upsertBinding org name binding =>
    obtain ⟨e, hf, he⟩ : ∃ e, s.find .entries org name = some e ∧ ¬ e.ReadsBack := by
      simpa [Mutation.ReadsBack] using hd
    have hg : db.get (cell .entries org name) = _ := h.get_map fieldOf_entries name
    rw [hf] at hg
    exact congrArg (·.1.1) ((alone_upsertBinding_of_some hg binding).trans (if_neg he))
  | setSourceConfig org name config =>
    obtain ⟨e, hf, he⟩ : ∃ e, s.find .entries org name = some e ∧ ¬ e.ReadsBack := by
      simpa [Mutation.ReadsBack] using hd
    have hg : db.get (cell .entries org name) = _ := h.get_map fieldOf_entries name
    rw [hf] at hg
    exact congrArg (·.1.1) ((alone_setSourceConfig_of_some hg config).trans (if_neg he))
  | _ => exact absurd trivial hd

end EmbeddedMetaStore

end Dataglot
