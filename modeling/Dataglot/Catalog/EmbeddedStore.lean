/-
The store in a file (`EmbeddedMetaStore` in `embedded.rs`).

A mutation changes the state in memory and then writes all of it to the file, first to a
temporary one that is renamed. If that fails the mutation returns the error, the file stays
as it was, and the state in memory keeps the change: later reads see it, and the next
mutation that is written takes it along.
-/
import Dataglot.Catalog.StoreState

namespace Dataglot

/-! ## The store -/

inductive CatalogServiceError
  | io (path source : String)
  | storeSerialization (source : String)
  | redb (message : String)
  deriving DecidableEq, Repr

inductive BindingChangeKind
  | upserted
  | deleted
  deriving DecidableEq, Repr

structure BindingChange where
  orgId : String
  name : String
  kind : BindingChangeKind
  deriving DecidableEq, Repr

namespace EmbeddedMetaStore

structure StoreDoc where
  version : String
  orgId : String
  orgs : StoreMap OrgState

inductive Mutation
  | upsertBinding (org name : String) (binding : CatalogBinding)
  | setSourceConfig (org name : String) (sourceConfig : Json)
  | deleteBinding (org name : String)
  | putSecret (org name : String) (ciphertext : List UInt8)
  | deleteSecret (org name : String)
  | putUser (org name : String) (passwordHash : Option String) (isSuperuser : Bool)
  | deleteUser (org name : String)
  | putRole (org name : String)
  | deleteRole (org name : String)
  | putPolicy (org name kind : String) (rule : Json)
  | deletePolicy (org name : String)
  | putGrant (org : String) (grant : GrantRecord)
  | deleteGrant (org : String) (grant : GrantRecord)
  | putDerivedProduct (org : String) (product : DerivedProductRecord)
  | deleteDerivedProduct (org name : String)
  | addRoleMember (org role user : String)
  | removeRoleMember (org role user : String)

/-- What a mutation does to the state in memory, whether the state is then written to the file, and what is
returned if that goes well. -/
structure Change (R : Type) where
  state : State
  persisted : Bool
  reply : R

namespace Mutation

abbrev Reply : Mutation → Type
  | upsertBinding .. => Option CatalogBinding
  | setSourceConfig .. | putSecret .. | putUser .. | putRole .. | putPolicy .. | putGrant .. | putDerivedProduct ..
  | addRoleMember .. => Unit
  | deleteBinding .. | deleteSecret .. | deleteUser .. | deleteRole .. | deletePolicy .. | deleteGrant ..
  | deleteDerivedProduct .. | removeRoleMember .. => Bool

/-- A mutation that is always written. -/
def always (s : State) : Change Unit := ⟨s, true, ()⟩

/-- A removal is written if there was something to remove. -/
def ifExisted (removed : State × Bool) : Change Bool := ⟨removed.1, removed.2, removed.2⟩

def change (s : State) : (m : Mutation) → Change m.Reply
  | upsertBinding org name binding => ⟨(s.upsertBinding org name binding).1, true, (s.upsertBinding org name binding).2⟩
  | setSourceConfig org name config =>
    ⟨(s.setSourceConfig org name config).1, (s.setSourceConfig org name config).2, ()⟩
  | deleteBinding org name => ifExisted (s.deleteBinding org name)
  | putSecret org name ciphertext => always (s.putSecret org name ciphertext)
  | deleteSecret org name => ifExisted (s.deleteSecret org name)
  | putUser org name hash isSuperuser => always (s.putUser org name hash isSuperuser)
  | deleteUser org name => ifExisted (s.deleteUser org name)
  | putRole org name => always (s.putRole org name)
  | deleteRole org name => ifExisted (s.deleteRole org name)
  | putPolicy org name kind rule => always (s.putPolicy org name kind rule)
  | deletePolicy org name => ifExisted (s.deletePolicy org name)
  | putGrant org grant => always (s.putGrant org grant)
  | deleteGrant org grant => ifExisted (s.deleteGrant org grant)
  | putDerivedProduct org product => always (s.putDerivedProduct org product)
  | deleteDerivedProduct org name => ifExisted (s.deleteDerivedProduct org name)
  | addRoleMember org role user => always (s.addRoleMember org role user)
  | removeRoleMember org role user => ifExisted (s.removeRoleMember org role user)

def emits : Mutation → Option BindingChange
  | upsertBinding org name _ | setSourceConfig org name _ => some ⟨org, name, .upserted⟩
  | deleteBinding org name => some ⟨org, name, .deleted⟩
  | _ => none

end Mutation

end EmbeddedMetaStore

open EmbeddedMetaStore

structure EmbeddedMetaStore where
  path : String
  orgId : String
  state : State
  /-- What the file has, once it is there. -/
  file : Option StoreDoc
  feed : List BindingChange

namespace EmbeddedMetaStore

/-- Where `persist` fails: the document, the temporary file, or the renaming. -/
inductive PersistFault
  | serialize (source : String)
  | write (source : String)
  | rename (source : String)
  deriving DecidableEq, Repr

variable (S : EmbeddedMetaStore)

def tmpPath : String := S.path ++ ".tmp"

/-- `persist`: the document that is then in the file. -/
def persist (fault : Option PersistFault) (state : State) : Except CatalogServiceError StoreDoc :=
  match fault with
  | some (.serialize source) => .error (.storeSerialization source)
  | some (.write source) => .error (.io S.tmpPath source)
  | some (.rename source) => .error (.io S.path source)
  | none => .ok ⟨"v2", S.orgId, state.orgs⟩

def apply (fault : Option PersistFault) (m : Mutation) : Except CatalogServiceError m.Reply × EmbeddedMetaStore :=
  let c := m.change S.state
  if c.persisted then
    match S.persist fault c.state with
    | .error e => (.error e, { S with state := c.state })
    | .ok doc => (.ok c.reply, { S with state := c.state, file := some doc, feed := S.feed ++ m.emits.toList })
  else (.ok c.reply, { S with state := c.state })

def read (r : Read) : r.Reply := S.state.read r

def runs (calls : List (Mutation × Option PersistFault)) : EmbeddedMetaStore :=
  calls.foldl (fun S call => (S.apply call.2 call.1).2) S

/-! ## Mutations that change nothing -/

/-- What the mutation writes is there already. A removal writes nothing. -/
def Mutation.WritesWhatIsThere (s : State) : Mutation → Prop
  | upsertBinding org name binding => (s.find .entries org name).map (·.binding) = some binding
  | setSourceConfig org name config => (s.find .entries org name).bind (·.sourceConfig) = some config
  | putSecret org name ciphertext => s.find .secrets org name = some ciphertext
  | putUser org name hash isSuperuser => s.find .users org name = some (hash, isSuperuser)
  | putRole org name => name ∈ s.field .roles org
  | putPolicy org name kind rule => s.find .policies org name = some (kind, rule)
  | putGrant org grant => grant ∈ s.field .grants org
  | putDerivedProduct org product => s.find .derivedProducts org product.name = some product
  | addRoleMember org role user => user ∈ (s.find .roleMembers org role).getD ∅
  | deleteBinding .. | deleteSecret .. | deleteUser .. | deleteRole .. | deletePolicy .. | deleteGrant ..
  | deleteDerivedProduct .. | removeRoleMember .. => False

variable {m : Mutation} {s : State} {org : String}

theorem Mutation.change_of_writesWhatIsThere (h : m.WritesWhatIsThere s) : (m.change s).state = s := by
  cases m with
  | upsertBinding org name binding =>
    obtain ⟨e, he, hb⟩ := Option.map_eq_some_iff.mp h
    simp only [change, State.upsertBinding, he]
    exact State.put_eq_self (by rw [he, ← hb])
  | setSourceConfig org name config =>
    obtain ⟨e, he, hc⟩ := Option.bind_eq_some_iff.mp h
    simp only [change, State.setSourceConfig, he]
    exact State.put_eq_self (by rw [he, ← hc])
  | putSecret | putUser | putPolicy | putDerivedProduct => exact State.put_eq_self h
  | putRole | putGrant => exact State.add_eq_self h
  | addRoleMember => exact State.addRoleMember_eq_self h
  | deleteBinding | deleteSecret | deleteUser | deleteRole | deletePolicy | deleteGrant | deleteDerivedProduct
  | removeRoleMember => exact h.elim

theorem find_remove_ne {V : Type} {F : Field (StoreMap V)} {name}
    (h : (s.remove F org name).2 = true) : (s.remove F org name).1.find F org name ≠ s.find F org name := by
  intro hs
  rw [State.remove_snd, ← hs, State.find_remove, if_pos ⟨rfl, rfl⟩] at h
  cases h

theorem field_discard_ne {A : Type} [DecidableEq A] {F} {a : A}
    (h : (s.discard F org a).2 = true) : (s.discard F org a).1.field F org ≠ s.field F org := by
  intro hs
  rw [State.discard_snd, decide_eq_true_iff, ← hs] at h
  exact State.notMem_field_discard h

theorem find_of_put {V : Type} {F name} {v : V}
    (h : (s.put F org name v).find F org name = s.find F org name) : s.find F org name = some v := by
  rw [← h, State.find_put, if_pos ⟨rfl, rfl⟩]

theorem mem_of_add {A : Type} [DecidableEq A] {F} {a : A}
    (h : (s.add F org a).field F org = s.field F org) : a ∈ s.field F org := by
  rw [← h]
  exact State.mem_field_add

/-- A mutation that is written and that no read shows has written what was there. -/
theorem Mutation.writesWhatIsThere_of_reads (hp : (m.change s).persisted = true)
    (h : ∀ r, (m.change s).state.read r = s.read r) : m.WritesWhatIsThere s := by
  have hs := State.sameFields_of_reads h
  cases m with
  | upsertBinding org name binding =>
    change (s.find .entries org name).map (·.binding) = some binding
    rw [← hs.entries org name]
    exact congrArg (Option.map _) ((State.find_upsertBinding ..).trans (if_pos ⟨rfl, rfl⟩))
  | setSourceConfig org name config =>
    obtain ⟨entry, he⟩ : ∃ entry, s.find .entries org name = some entry :=
      Option.isSome_iff_exists.mp ((State.setSourceConfig_snd config).symm.trans hp)
    change (s.find .entries org name).bind (·.sourceConfig) = some config
    rw [← hs.entries org name]
    refine (congrArg (Option.bind · _) ((State.find_setSourceConfig ..).trans (if_pos ⟨rfl, rfl⟩))).trans ?_
    rw [he]
    rfl
  | putSecret org name ciphertext => exact find_of_put (hs.secrets org name)
  | putUser org name hash isSuperuser => exact find_of_put (hs.users org name)
  | putPolicy org name kind rule => exact find_of_put (hs.policies org name)
  | putDerivedProduct org product => exact find_of_put (hs.derivedProducts org product.name)
  | putRole org name => exact mem_of_add (hs.roles org)
  | putGrant org grant => exact mem_of_add (hs.grants org)
  | addRoleMember org role user =>
    change user ∈ (s.find .roleMembers org role).getD ∅
    rw [← hs.roleMembers org role]
    exact State.mem_addRoleMember
  | deleteBinding org name => exact find_remove_ne hp (hs.entries org name)
  | deleteSecret org name => exact find_remove_ne hp (hs.secrets org name)
  | deleteUser org name => exact find_remove_ne hp (hs.users org name)
  | deletePolicy org name => exact find_remove_ne hp (hs.policies org name)
  | deleteDerivedProduct org name => exact find_remove_ne hp (hs.derivedProducts org name)
  | deleteRole org name => exact field_discard_ne hp (hs.roles org)
  | deleteGrant org grant => exact field_discard_ne hp (hs.grants org)
  | removeRoleMember org role user =>
    have ht : user ∈ (s.find .roleMembers org role).getD ∅ :=
      of_decide_eq_true (State.removeRoleMember_snd.symm.trans hp)
    rw [← hs.roleMembers org role] at ht
    exact State.notMem_removeRoleMember ht

/-! ## Failed writes -/

/-- A call that returns an error has changed the state in memory, and nothing else. -/
theorem apply_error {S : EmbeddedMetaStore} {fault e}
    (h : (S.apply fault m).1 = .error e) : (m.change S.state).persisted = true ∧
      (S.apply fault m).2 = { S with state := (m.change S.state).state } := by
  unfold apply at h ⊢
  dsimp only at h ⊢
  split_ifs at h ⊢ with hp
  refine ⟨hp, ?_⟩
  cases hpe : S.persist fault (m.change S.state).state with
  | error e' => rfl
  | ok doc =>
    rw [hpe] at h
    cases h

/-- A call that returns an error is as if it had not been made, now and after whatever mutations follow, iff it
wrote what was there. -/
theorem failed_write_undone_iff {S : EmbeddedMetaStore} {fault : Option PersistFault} {m : Mutation}
    {e : CatalogServiceError} (h : (S.apply fault m).1 = .error e) :
    (∀ later, (∀ r, ((S.apply fault m).2.runs later).read r = (S.runs later).read r) ∧
        ((S.apply fault m).2.runs later).file = (S.runs later).file) ↔
      m.WritesWhatIsThere S.state := by
  obtain ⟨hp, ha⟩ := apply_error h
  rw [ha]
  constructor
  · intro hs
    exact Mutation.writesWhatIsThere_of_reads hp (hs []).1
  · intro ht later
    rw [Mutation.change_of_writesWhatIsThere ht]
    exact ⟨fun _ => rfl, rfl⟩

/-- The user is stored again as it is stored. -/
theorem same_user_write_undone :
    let S : EmbeddedMetaStore := ⟨"meta.json", "default", (State.mk ∅).putUser "acme" "ann" none false, none, []⟩
    let after := (S.apply (some (.write "disk full")) (.putUser "acme" "ann" none false)).2
    ∀ later, (∀ r, (after.runs later).read r = (S.runs later).read r) ∧ (after.runs later).file = (S.runs later).file := by
  intro S after
  have hf : (S.apply (some (.write "disk full")) (.putUser "acme" "ann" none false)).1 =
      .error (.io "meta.json.tmp" "disk full") := rfl
  refine (failed_write_undone_iff hf).mpr ?_
  exact (State.find_put ..).trans (if_pos ⟨rfl, rfl⟩)

/-- `CREATE USER` of a superuser fails on a full disk. The user is there all the same, and in the file with the
next role that is created. -/
theorem failed_user_becomes_durable :
    let S : EmbeddedMetaStore := ⟨"meta.json", "default", ⟨∅⟩, none, []⟩
    let failed := S.apply (some (.write "disk full")) (.putUser "acme" "eve" none true)
    let stored (S : EmbeddedMetaStore) := S.file.map fun doc => (State.mk doc.orgs).getUser "acme" "eve"
    let role : Mutation := .putRole "acme" "auditor"
    failed.1 = .error (.io "meta.json.tmp" "disk full") ∧
      S.read (.getUser "acme" "eve") = none ∧ failed.2.read (.getUser "acme" "eve") = some (⟨"eve", true⟩, none) ∧
      stored (S.apply none role).2 = some none ∧ stored (failed.2.apply none role).2 = some (some (⟨"eve", true⟩, none)) := by
  intro S failed stored role
  exact ⟨rfl, rfl, rfl, rfl, rfl⟩

end EmbeddedMetaStore

end Dataglot
