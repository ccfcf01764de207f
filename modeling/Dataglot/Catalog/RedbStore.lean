/-
The store in a redb database (`RedbMetaStore` in `redb_store.rs`): one table per kind of
object, under keys that begin with the org.

Each operation is a program of transactions. A read is one of them, and so is a write,
except for `upsert_binding` and `set_source_config`, which read an entry in one transaction
and write the changed one in another. What is stored of an entry or a policy is the JSON
document; `serde_json` gives it back as it was written, but for a `null` where an option is
read, and up to its limit on how deep a document goes.
-/
import Dataglot.Library.TableFamily
import Dataglot.Catalog.GrantKey
import Dataglot.Catalog.EmbeddedStore

namespace Dataglot
open TableFamily

/-! ## Documents -/

namespace Json

mutual

/-- How many arrays and objects are open at the deepest place. -/
def depth : Json → Nat
  | array items => depthItems items + 1
  | object fields => depthFields fields + 1
  | _ => 0

def depthItems : List Json → Nat
  | [] => 0
  | v :: vs => max (depth v) (depthItems vs)

def depthFields : List (String × Json) → Nat
  | [] => 0
  | f :: fs => max (depthField f) (depthFields fs)

def depthField : String × Json → Nat
  | (_, v) => depth v

end

/-- A value that is read as an `Option<Value>`. -/
def readOption : Json → Option Json
  | null => none
  | v => some v

end Json

open EmbeddedMetaStore (Mutation Read)

namespace RedbMetaStore

structure StoredEntry where
  binding : CatalogBinding
  sourceConfig : Option Json

/-- The document of a `StoredEntry`. -/
structure EntryDocument where
  binding : CatalogBinding
  sourceConfig : Json

def ser (e : StoredEntry) : EntryDocument := ⟨e.binding, e.sourceConfig.getD .null⟩

/-- A value stands one level down in the document, and at level 128 `serde_json` gives up. -/
def withinLimit (v : Json) : Bool := v.depth + 1 < 128

def recursionLimit : CatalogServiceError := .redb "corrupt stored value: recursion limit exceeded"

def de (doc : EntryDocument) : Except CatalogServiceError StoredEntry :=
  if withinLimit doc.sourceConfig then .ok ⟨doc.binding, doc.sourceConfig.readOption⟩ else .error recursionLimit

def dePolicy (doc : String × Json) : Except CatalogServiceError (String × Json) :=
  if withinLimit doc.2 then .ok doc else .error recursionLimit

/-! ## Tables -/

inductive TableDefinition
  | entries
  | secrets
  | users
  | roles
  | roleMembers
  | policies
  | grants
  | products
  deriving DecidableEq, Repr

namespace TableDefinition

/-- What follows the org in a key. -/
abbrev Name : TableDefinition → Type
  | roleMembers => String ×ₗ String
  | entries | secrets | users | roles | policies | grants | products => String

instance instNameLinearOrder : ∀ t : TableDefinition, LinearOrder t.Name
  | roleMembers => inferInstanceAs (LinearOrder (String ×ₗ String))
  | entries | secrets | users | roles | policies | grants | products => inferInstanceAs (LinearOrder String)

abbrev Key (t : TableDefinition) : Type := String ×ₗ t.Name

abbrev Value : TableDefinition → Type
  | entries => EntryDocument
  | secrets => List UInt8
  | users => Option String × Bool
  | roles | roleMembers => UInt8
  | policies => String × Json
  | grants => GrantRecord
  | products => DerivedProductRecord

end TableDefinition

abbrev Tables := TableFamily.Tables TableDefinition.Key TableDefinition.Value

abbrev Txn := TableFamily.Txn TableDefinition.Key TableDefinition.Value

abbrev Op (α : Type) := Programs.Prog Txn TableFamily.Txn.Reply α

abbrev Cell := TableFamily.Cell TableDefinition.Key

abbrev cell (t : TableDefinition) (org : String) (name : t.Name) : Cell := ⟨t, toLex (org, name)⟩

/-! ## Writes -/

section Writes

/-- One transaction, under `spawn_blocking`. -/
abbrev transact (x : Txn) : Op x.Reply := Programs.Prog.perform x

/-- What an operation returns, and what it emits. -/
abbrev Outcome (R : Type) := Except CatalogServiceError R × Option BindingChange

def putBytes (t : TableDefinition) (org : String) (name : t.Name) (val : t.Value) : Op (Outcome Unit) := do
  transact (.insert (cell t org name) val)
  return (.ok (), none)

def removeKey (t : TableDefinition) (org : String) (name : t.Name) : Op (Outcome Bool) := do
  let existed ← transact (.remove (cell t org name))
  return (.ok existed, none)

def upsertBinding (org name : String) (binding : CatalogBinding) : Op (Outcome (Option CatalogBinding)) := do
  let prev ← transact (.get (cell .entries org name))
  match prev.mapM de with
  | .error e => return (.error e, none)
  | .ok entry =>
    -- any source config that is there stays
    transact (.insert (cell .entries org name) (ser ⟨binding, entry.bind (·.sourceConfig)⟩))
    return (.ok (entry.map (·.binding)), some ⟨org, name, .upserted⟩)

def setSourceConfig (org name : String) (sourceConfig : Json) : Op (Outcome Unit) := do
  let existing ← transact (.get (cell .entries org name))
  match existing with
  | none => return (.ok (), none)
  | some bytes =>
    match de bytes with
    | .error e => return (.error e, none)
    | .ok entry =>
      transact (.insert (cell .entries org name) (ser { entry with sourceConfig := some sourceConfig }))
      return (.ok (), some ⟨org, name, .upserted⟩)

def deleteBinding (org name : String) : Op (Outcome Bool) := do
  let removed ← transact (.remove (cell .entries org name))
  return (.ok removed, if removed then some ⟨org, name, .deleted⟩ else none)

def mutate : (m : Mutation) → Op (Outcome m.Reply)
  | .upsertBinding org name binding => upsertBinding org name binding
  | .setSourceConfig org name sourceConfig => setSourceConfig org name sourceConfig
  | .deleteBinding org name => deleteBinding org name
  | .putSecret org name ciphertext => putBytes .secrets org name ciphertext
  | .deleteSecret org name => removeKey .secrets org name
  | .putUser org name passwordHash isSuperuser => putBytes .users org name (passwordHash, isSuperuser)
  | .deleteUser org name => removeKey .users org name
  | .putRole org name => putBytes .roles org name (1 : UInt8)
  | .deleteRole org name => removeKey .roles org name
  | .putPolicy org name kind rule => putBytes .policies org name (kind, rule)
  | .deletePolicy org name => removeKey .policies org name
  | .putGrant org grant => putBytes .grants org (grantKey grant) grant
  | .deleteGrant org grant => removeKey .grants org (grantKey grant)
  | .putDerivedProduct org product => putBytes .products org product.name product
  | .deleteDerivedProduct org name => removeKey .products org name
  | .addRoleMember org role user => putBytes .roleMembers org (toLex (role, user)) (1 : UInt8)
  | .removeRoleMember org role user => removeKey .roleMembers org (toLex (role, user))

/-! What the two operations on entries do with the document that they have read. -/

theorem ser_readOption (binding) (v) : ser ⟨binding, v.readOption⟩ = ⟨binding, v⟩ := by
  cases v <;> rfl

theorem de_of_withinLimit {doc} (h : withinLimit doc.sourceConfig = true) :
    de doc = .ok ⟨doc.binding, doc.sourceConfig.readOption⟩ := if_pos h

theorem de_of_not_withinLimit {doc} (h : ¬ withinLimit doc.sourceConfig = true) :
    de doc = .error recursionLimit := if_neg h

theorem upsertBinding_eq (org name) (binding) :
    upsertBinding org name binding = .ask (.get (cell .entries org name)) fun
      | none => .ask (.insert (cell .entries org name) ⟨binding, .null⟩) fun _ =>
        .done (.ok none, some ⟨org, name, .upserted⟩)
      | some doc =>
        if withinLimit doc.sourceConfig then
          .ask (.insert (cell .entries org name) ⟨binding, doc.sourceConfig⟩) fun _ =>
            .done (.ok (some doc.binding), some ⟨org, name, .upserted⟩)
        else .done (.error recursionLimit, none) := by
  unfold upsertBinding
  rw [Programs.Prog.perform_bind]
  congr 1
  funext prev
  cases prev with
  | none => rfl
  | some doc =>
    by_cases h : withinLimit doc.sourceConfig = true
    · simp [de_of_withinLimit h, h, ser_readOption]
    · simp [de_of_not_withinLimit h, h]

theorem setSourceConfig_eq (org name) (sourceConfig) :
    setSourceConfig org name sourceConfig = .ask (.get (cell .entries org name)) fun
      | none => .done (.ok (), none)
      | some doc =>
        if withinLimit doc.sourceConfig then
          .ask (.insert (cell .entries org name) ⟨doc.binding, sourceConfig⟩) fun _ =>
            .done (.ok (), some ⟨org, name, .upserted⟩)
        else .done (.error recursionLimit, none) := by
  unfold setSourceConfig
  rw [Programs.Prog.perform_bind]
  congr 1
  funext existing
  cases existing with
  | none => rfl
  | some doc =>
    by_cases h : withinLimit doc.sourceConfig = true
    · simp [de_of_withinLimit h, h, ser]
    · simp [de_of_not_withinLimit h, h]

/-! Alone, an operation reads what it then replaces. -/

section Alone

variable {db : Tables} {org name : String}

theorem alone_upsertBinding_of_none (h : db.get (cell .entries org name) = none) (binding) :
    (upsertBinding org name binding).alone Tables.exec db =
      ((.ok none, some ⟨org, name, .upserted⟩), db.set (cell .entries org name) (some ⟨binding, .null⟩)) := by
  simp [upsertBinding_eq, Tables.exec, h]

theorem alone_upsertBinding_of_some {doc : EntryDocument} (h : db.get (cell .entries org name) = some doc)
    (binding) : (upsertBinding org name binding).alone Tables.exec db =
      if withinLimit doc.sourceConfig then
        ((.ok (some doc.binding), some ⟨org, name, .upserted⟩),
          db.set (cell .entries org name) (some ⟨binding, doc.sourceConfig⟩))
      else ((.error recursionLimit, none), db) := by
  rw [upsertBinding_eq, Programs.Prog.alone_ask]
  simp only [Tables.exec, h]
  split_ifs <;> rfl

theorem alone_setSourceConfig_of_none (h : db.get (cell .entries org name) = none) (sourceConfig) :
    (setSourceConfig org name sourceConfig).alone Tables.exec db = ((.ok (), none), db) := by
  simp [setSourceConfig_eq, Tables.exec, h]

theorem alone_setSourceConfig_of_some {doc : EntryDocument} (h : db.get (cell .entries org name) = some doc)
    (sourceConfig) : (setSourceConfig org name sourceConfig).alone Tables.exec db =
      if withinLimit doc.sourceConfig then
        ((.ok (), some ⟨org, name, .upserted⟩),
          db.set (cell .entries org name) (some ⟨doc.binding, sourceConfig⟩))
      else ((.error recursionLimit, none), db) := by
  rw [setSourceConfig_eq, Programs.Prog.alone_ask]
  simp only [Tables.exec, h]
  split_ifs <;> rfl

end Alone

end Writes

end RedbMetaStore

/-! ## Reads -/

/-- What a read returns; of a set of grants, their order too. -/
abbrev EmbeddedMetaStore.Read.Answer : Read → Type
  | .listGrants _ => List GrantRecord
  | r => r.Reply

namespace RedbMetaStore

section Reads

open OrderedTable

variable (db : Tables)

def listOrg (t : TableDefinition) (org : String) : List (t.Name × t.Value) := scan (db t) org

def listEntries (org : String) : Except CatalogServiceError (List (String × StoredEntry)) :=
  (listOrg db .entries org).mapM fun (name, bytes) => (de bytes).map fun entry => (name, entry)

def getUser (org name : String) : Option (UserRecord × Option String) :=
  (db.get (cell .users org name)).map fun (hash, isSuperuser) => (⟨name, isSuperuser⟩, hash)

/-- The users table is read through for the name, whatever the org. -/
def findUser (want : String) : Option (String × UserRecord × Option String) :=
  (iter (db .users)).findSome? fun (key, hash, isSuperuser) =>
    if (ofLex key).2 = want then some ((ofLex key).1, ⟨want, isSuperuser⟩, hash) else none

/-- Every org that owns an object of any kind. -/
def orgs : Finset String :=
  ([.entries, .secrets, .users, .roles, .policies, .grants, .products, .roleMembers].flatMap
    fun t => (iter (db t)).map fun (key, _) => (ofLex key).1).toFinset

def read : (r : Read) → Except CatalogServiceError r.Answer
  | .listSourceConfigs org =>
    (listEntries db org).map fun entries name => (entries.lookup name).bind (·.sourceConfig)
  | .listBindings org => (listEntries db org).map fun entries name => (entries.lookup name).map (·.binding)
  | .getSecret org name => .ok (db.get (cell .secrets org name))
  | .listSecretNames org => .ok ((listOrg db .secrets org).map Prod.fst)
  | .getUser org name => .ok (getUser db org name)
  | .findUser name => .ok (findUser db name)
  | .listUsers org => .ok ((listOrg db .users org).map fun (name, _, isSuperuser) => ⟨name, isSuperuser⟩)
  | .listRoles org => .ok ((listOrg db .roles org).map Prod.fst)
  | .getPolicy org name => (db.get (cell .policies org name)).mapM dePolicy
  | .listPolicies org => (listOrg db .policies org).mapM fun (name, bytes) =>
    (dePolicy bytes).map fun (kind, _) => ⟨name, kind⟩
  | .listGrants org => .ok ((listOrg db .grants org).map Prod.snd)
  | .getDerivedProduct org name => .ok (db.get (cell .products org name))
  | .listDerivedProducts org => .ok ((listOrg db .products org).map Prod.snd)
  | .listRolesForUser org user => .ok ((listOrg db .roleMembers org).filterMap fun (key, _) =>
    if (ofLex key).2 = user then some (ofLex key).1 else none)
  | .listRoleMembers org role => .ok ((listOrg db .roleMembers org).filterMap fun (key, _) =>
    if (ofLex key).1 = role then some (ofLex key).2 else none)
  | .listOrgs => .ok (inOrder (.refl _) (orgs db))

end Reads

end RedbMetaStore

open RedbMetaStore in
structure RedbMetaStore where
  tables : Tables
  feed : List BindingChange

namespace RedbMetaStore

/-- A mutation that no other comes in between. -/
def apply (R : RedbMetaStore) (m : Mutation) : Except CatalogServiceError m.Reply × RedbMetaStore :=
  let ((reply, event), tables) := (mutate m).alone TableFamily.Tables.exec R.tables
  (reply, ⟨tables, R.feed ++ event.toList⟩)

end RedbMetaStore

end Dataglot
