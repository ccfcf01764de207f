/-
The warehouse catalog (Iceberg) and its file writer, as the write path uses them: what each
operation does to the catalog's tables and what it replies. An operation is atomic: one
that fails has changed nothing.

A table has an identity of its own (`uuid`), given to it when it is created, by which it can
be followed through renames.
-/
import Mathlib
import Dataglot.Library.Programs

namespace Iceberg
open Programs AList
open Programs.Prog (perform)

abbrev Name := List Char

structure TableIdent where
  ns : Name
  name : Name
  deriving DecidableEq

/-- Schemas and batches, and what may fail about them. -/
structure Arrow where
  Schema : Type
  IcebergSchema : Type
  Batch : Type
  /-- `arrow_schema_to_schema_auto_assign_ids` -/
  toIceberg : Schema → Except String IcebergSchema
  /-- `schema_to_arrow_schema` -/
  toArrow : IcebergSchema → Except String Schema
  numRows : Batch → Nat
  /-- `RecordBatch::try_new`, over the columns of a batch -/
  tryNew : Schema → Batch → Except String Batch

/-- A table with its metadata; it has no snapshot until something is committed to it. -/
structure Table (A : Arrow) where
  uuid : Nat
  schema : A.IcebergSchema
  snapshotId : Option Int
  batches : List A.Batch
  lastUpdatedMs : Int

/-- No two tables have the same identity, and the identities from `next` on are free. -/
structure Identified {A : Arrow} (tables : AList fun _ : TableIdent => Table A) (next : Nat) : Prop where
  lt : ∀ {n t}, tables.lookup n = some t → t.uuid < next
  inj : ∀ {n n' t t'}, tables.lookup n = some t → tables.lookup n' = some t' → t.uuid = t'.uuid → n = n'

namespace Identified

variable {A : Arrow} {tables : AList fun _ : TableIdent => Table A} {next : Nat}

theorem erase (h : Identified tables next) (n) : Identified (tables.erase n) next := by
  have hl : ∀ {m t}, (tables.erase n).lookup m = some t → tables.lookup m = some t := by
    intro m t hm
    by_cases hmn : m = n
    · rw [hmn, lookup_erase] at hm
      cases hm
    · rwa [lookup_erase_ne hmn] at hm
  exact ⟨fun hm => h.lt (hl hm), fun hm hm' => h.inj (hl hm) (hl hm')⟩

theorem insert (h : Identified tables next) {n t} (hlt : t.uuid < next)
    (hf : ∀ {m u}, m ≠ n → tables.lookup m = some u → u.uuid ≠ t.uuid) : Identified (tables.insert n t) next where
  lt {m u} hm := by
    by_cases hmn : m = n
    · rw [hmn, lookup_insert] at hm
      cases hm
      exact hlt
    · rw [lookup_insert_ne hmn] at hm
      exact h.lt hm
  inj {m m' u u'} hm hm' heq := by
    by_cases hmn : m = n <;> by_cases hmn' : m' = n
    · rw [hmn, hmn']
    · rw [hmn, lookup_insert] at hm
      rw [lookup_insert_ne hmn'] at hm'
      cases hm
      exact absurd heq.symm (hf hmn' hm')
    · rw [hmn', lookup_insert] at hm'
      rw [lookup_insert_ne hmn] at hm
      cases hm'
      exact absurd heq (hf hmn hm)
    · rw [lookup_insert_ne hmn] at hm
      rw [lookup_insert_ne hmn'] at hm'
      exact h.inj hm hm' heq

theorem insert_new (h : Identified tables next) (n) {t} (ht : t.uuid = next) :
    Identified (tables.insert n t) (next + 1) := by
  have hs : Identified tables (next + 1) := ⟨fun hm => Nat.lt_succ_of_lt (h.lt hm), h.inj⟩
  refine hs.insert (by rw [ht]; exact Nat.lt_succ_self _) fun _ hm heq => ?_
  have hlt := h.lt hm
  omega

end Identified

structure Catalog (A : Arrow) where
  tables : AList fun _ : TableIdent => Table A
  nextUuid : Nat
  identified : Identified tables nextUuid

namespace Catalog

variable {A : Arrow} (C : Catalog A)

def empty : Catalog A := ⟨∅, 0, ⟨nofun, nofun⟩⟩

def lookup (n : TableIdent) : Option (Table A) := C.tables.lookup n

/-! ## Changes -/

def create (n : TableIdent) (schema : A.IcebergSchema) (nowMs : Int) : Catalog A where
  tables := C.tables.insert n ⟨C.nextUuid, schema, none, [], nowMs⟩
  nextUuid := C.nextUuid + 1
  identified := C.identified.insert_new n rfl

def drop (n : TableIdent) : Catalog A where
  tables := C.tables.erase n
  nextUuid := C.nextUuid
  identified := C.identified.erase n

def rename (src dst : TableIdent) : Catalog A where
  tables := match C.tables.lookup src with
    | none => C.tables
    | some t => (C.tables.erase src).insert dst t
  nextUuid := C.nextUuid
  identified := by
    split
    next => exact C.identified
    next t ht =>
      refine (C.identified.erase src).insert (C.identified.lt ht) fun {m u} _ hm heq => ?_
      by_cases hms : m = src
      · rw [hms, AList.lookup_erase] at hm
        cases hm
      · rw [AList.lookup_erase_ne hms] at hm
        exact hms (C.identified.inj hm ht heq)

/-- A commit: a new snapshot, with more batches. -/
def append (n : TableIdent) (batches : List A.Batch) (snapshotId nowMs : Int) : Catalog A where
  tables := match C.tables.lookup n with
    | none => C.tables
    | some t => C.tables.insert n ⟨t.uuid, t.schema, some snapshotId, t.batches ++ batches, nowMs⟩
  nextUuid := C.nextUuid
  identified := by
    split
    next => exact C.identified
    next t ht =>
      have hfree : ∀ {m u}, m ≠ n → C.tables.lookup m = some u → u.uuid ≠ t.uuid :=
        fun hmn hm heq => hmn (C.identified.inj hm ht heq)
      exact C.identified.insert (C.identified.lt (t := t) ht) hfree

section Lookup

variable (m n : TableIdent)

theorem lookup_create (schema nowMs) :
    (C.create n schema nowMs).lookup m = if m = n then some ⟨C.nextUuid, schema, none, [], nowMs⟩ else C.lookup m := by
  split
  next h => rw [h]; exact lookup_insert _
  next h => exact lookup_insert_ne h

theorem lookup_drop : (C.drop n).lookup m = if m = n then none else C.lookup m := by
  split
  next h => rw [h]; exact lookup_erase _ _
  next h => exact lookup_erase_ne h

theorem lookup_rename {src dst t} (ht : C.lookup src = some t) :
    (C.rename src dst).lookup m = if m = dst then some t else if m = src then none else C.lookup m := by
  have hta : (C.rename src dst).tables = (C.tables.erase src).insert dst t := by
    dsimp only [rename]
    rw [show C.tables.lookup src = some t from ht]
  unfold lookup
  rw [hta]
  split
  next h => rw [h, lookup_insert]
  next h =>
    rw [lookup_insert_ne h]
    exact C.lookup_drop m src

theorem lookup_append {t} (ht : C.lookup n = some t) (batches snapshotId nowMs) :
    (C.append n batches snapshotId nowMs).lookup m =
      if m = n then some ⟨t.uuid, t.schema, some snapshotId, t.batches ++ batches, nowMs⟩ else C.lookup m := by
  have hta : (C.append n batches snapshotId nowMs).tables =
      C.tables.insert n ⟨t.uuid, t.schema, some snapshotId, t.batches ++ batches, nowMs⟩ := by
    dsimp only [append]
    rw [show C.tables.lookup n = some t from ht]
  unfold lookup
  rw [hta]
  split
  next h => rw [h, lookup_insert]
  next h => rw [lookup_insert_ne h]

end Lookup

end Catalog

/-! ## Operations -/

/-- The caller's reason to drop a table, which is what the log names if that fails. -/
inductive DropPurpose
  | stagingCleanup
  | preClean
  | parked
  | sweep
  deriving DecidableEq

/-- Work on files, with no effect on the catalog. -/
inductive FileStep (A : Arrow)
  /-- `DefaultLocationGenerator::new` -/
  | layout
  | openWriter
  | write (batch : A.Batch)
  /-- `append.apply` -/
  | stageAppend

inductive Op (A : Arrow)
  | tableExists (n : TableIdent)
  | createTable (n : TableIdent) (schema : A.IcebergSchema)
  | loadTable (n : TableIdent)
  | renameTable (src dst : TableIdent)
  | dropTable (n : TableIdent) (purpose : DropPurpose)
  | listTables (ns : Name)
  /-- the commit of a `fast_append` -/
  | commitAppend (n : TableIdent) (batches : List A.Batch)
  | file (step : FileStep A)
  /-- closes the writer and counts its files -/
  | closeWriter
  /-- milliseconds since the epoch, none before it -/
  | systemTime

/-- What is replied to an operation; an error comes as its text. -/
@[reducible] def Op.Reply {A : Arrow} : Op A → Type
  | tableExists _ => Except String Bool
  | createTable _ _ => Except String Unit
  | loadTable _ => Except String (Table A)
  | renameTable _ _ => Except String Unit
  | dropTable _ _ => Except String Unit
  | listTables _ => Except String (List TableIdent)
  | commitAppend _ _ => Except String Unit
  | file _ => Except String Unit
  | closeWriter => Except String Nat
  | systemTime => Option Nat

/-- What is not up to the state: failures of the catalog and of the files, ids and times, how many files the
writer makes. -/
structure Choice where
  catalogFault : Option String
  fileFault : Option String
  snapshotId : Int
  nowMs : Int
  files : Nat
  clock : Option Nat

def attempt {A : Arrow} {α : Type} (fault : Option String) (C : Catalog A) (r : Except String α × Catalog A) :
    Except String α × Catalog A :=
  match fault with
  | some e => (.error e, C)
  | none => r

def notFound : String := "table not found"

def alreadyExists : String := "table already exists"

def Catalog.exec {A : Arrow} (c : Choice) (C : Catalog A) : (op : Op A) → op.Reply × Catalog A
  | .tableExists n => attempt c.catalogFault C (.ok (C.lookup n).isSome, C)
  | .createTable n schema => attempt c.catalogFault C <|
    match C.lookup n with
    | some _ => (.error alreadyExists, C)
    | none => (.ok (), C.create n schema c.nowMs)
  | .loadTable n => attempt c.catalogFault C <|
    match C.lookup n with
    | some t => (.ok t, C)
    | none => (.error notFound, C)
  | .renameTable src dst => attempt c.catalogFault C <|
    match C.lookup src, C.lookup dst with
    | none, _ => (.error notFound, C)
    | some _, some _ => (.error alreadyExists, C)
    | some _, none => (.ok (), C.rename src dst)
  | .dropTable n _ => attempt c.catalogFault C <|
    match C.lookup n with
    | some _ => (.ok (), C.drop n)
    | none => (.error notFound, C)
  | .listTables ns => attempt c.catalogFault C (.ok (C.tables.keys.filter fun n => n.ns = ns), C)
  | .commitAppend n batches => attempt c.catalogFault C <|
    match C.lookup n with
    | some _ => (.ok (), C.append n batches c.snapshotId c.nowMs)
    | none => (.error notFound, C)
  | .file _ => attempt c.fileFault C (.ok (), C)
  | .closeWriter => attempt c.fileFault C (.ok c.files, C)
  | .systemTime => (c.clock, C)

section Exec

variable {A : Arrow} {c : Choice} {C : Catalog A} (n : TableIdent)

theorem Catalog.exec_createTable (schema) :
    (∃ e, C.exec c (.createTable n schema) = (.error e, C)) ∨
    (C.lookup n = none ∧ C.exec c (.createTable n schema) = (.ok (), C.create n schema c.nowMs)) := by
  dsimp only [exec, attempt]
  cases c.catalogFault with
  | some e => exact .inl ⟨e, rfl⟩
  | none =>
    cases C.lookup n with
    | some t => exact .inl ⟨_, rfl⟩
    | none => exact .inr ⟨rfl, rfl⟩

theorem Catalog.attempt_on_table {α : Type} (fault n)
    (found : Table A → Except String α × Catalog A) {r}
    (hr : r = attempt fault C (match C.lookup n with | some t => found t | none => (.error notFound, C))) :
    (∃ e, (fault = none → C.lookup n = none) ∧ r = (.error e, C)) ∨
    ∃ t, fault = none ∧ C.lookup n = some t ∧ r = found t := by
  subst hr
  cases fault with
  | some e => exact .inl ⟨e, nofun, rfl⟩
  | none =>
    cases C.lookup n with
    | some t => exact .inr ⟨t, rfl, rfl, rfl⟩
    | none => exact .inl ⟨notFound, fun _ => rfl, rfl⟩

theorem Catalog.exec_loadTable : (∃ e, C.exec c (.loadTable n) = (.error e, C)) ∨
    ∃ t, C.lookup n = some t ∧ C.exec c (.loadTable n) = (.ok t, C) := by
  obtain ⟨e, -, h⟩ | ⟨t, -, ht, h⟩ := C.attempt_on_table c.catalogFault n (fun t => (.ok t, C)) rfl
  · exact .inl ⟨e, h⟩
  · exact .inr ⟨t, ht, h⟩

theorem Catalog.exec_renameTable (src dst) :
    (∃ e, (c.catalogFault = none → C.lookup src = none ∨ (C.lookup dst).isSome) ∧
      C.exec c (.renameTable src dst) = (.error e, C)) ∨
    ∃ t, c.catalogFault = none ∧ C.lookup src = some t ∧ C.lookup dst = none ∧
      C.exec c (.renameTable src dst) = (.ok (), C.rename src dst) := by
  dsimp only [exec, attempt]
  cases c.catalogFault with
  | some e => exact .inl ⟨e, nofun, rfl⟩
  | none =>
    cases C.lookup src with
    | none => exact .inl ⟨_, fun _ => .inl rfl, rfl⟩
    | some t =>
      cases C.lookup dst with
      | some t' => exact .inl ⟨_, fun _ => .inr rfl, rfl⟩
      | none => exact .inr ⟨t, rfl, rfl, rfl, rfl⟩

theorem Catalog.exec_dropTable (purpose : DropPurpose) :
    (∃ e, (c.catalogFault = none → C.lookup n = none) ∧ C.exec c (.dropTable n purpose) = (.error e, C)) ∨
    ∃ t, c.catalogFault = none ∧ C.lookup n = some t ∧ C.exec c (.dropTable n purpose) = (.ok (), C.drop n) :=
  C.attempt_on_table c.catalogFault n (fun _ => (.ok (), C.drop n)) rfl

theorem Catalog.exec_commitAppend (batches : List A.Batch) :
    (∃ e, C.exec c (.commitAppend n batches) = (.error e, C)) ∨ ∃ t, C.lookup n = some t ∧
      C.exec c (.commitAppend n batches) = (.ok (), C.append n batches c.snapshotId c.nowMs) := by
  obtain ⟨e, -, h⟩ | ⟨t, -, ht, h⟩ := C.attempt_on_table c.catalogFault n
    (fun _ => (.ok (), C.append n batches c.snapshotId c.nowMs)) rfl
  · exact .inl ⟨e, h⟩
  · exact .inr ⟨t, ht, h⟩

def Op.isRead : Op A → Bool
  | .tableExists _ | .loadTable _ | .listTables _ | .file _ | .closeWriter | .systemTime => true
  | _ => false

theorem Catalog.exec_of_isRead {op} (h : op.isRead = true) : (C.exec c op).2 = C := by
  have ha : ∀ {α} (fault : Option String) (r : Except String α), (attempt fault C (r, C)).2 = C := by
    intro α fault r
    cases fault <;> rfl
  cases op with
  | loadTable n =>
    obtain ⟨e, h⟩ | ⟨t, -, h⟩ := exec_loadTable (c := c) (C := C) n <;> rw [h]
  | tableExists | listTables | file | closeWriter => exact ha _ _
  | systemTime => rfl
  | createTable | renameTable | dropTable | commitAppend => cases h

end Exec

/-! ## Programs over the catalog -/

abbrev Program (A : Arrow) (α : Type) : Type := Prog (Op A) Op.Reply α

section Program

variable {A : Arrow}

def tableExists (n : TableIdent) : Program A (Except String Bool) := perform (Op.tableExists n)

def createTable (n : TableIdent) (schema : A.IcebergSchema) : Program A (Except String Unit) :=
  perform (Op.createTable n schema)

def loadTable (n : TableIdent) : Program A (Except String (Table A)) := perform (Op.loadTable n)

def renameTable (src dst : TableIdent) : Program A (Except String Unit) := perform (Op.renameTable src dst)

def dropTable (n : TableIdent) (purpose : DropPurpose) : Program A (Except String Unit) :=
  perform (Op.dropTable n purpose)

def listTables (ns : Name) : Program A (Except String (List TableIdent)) := perform (Op.listTables ns)

def commitAppend (n : TableIdent) (batches : List A.Batch) : Program A (Except String Unit) :=
  perform (Op.commitAppend n batches)

def file (step : FileStep A) : Program A (Except String Unit) := perform (Op.file step)

def closeWriter : Program A (Except String Nat) := perform Op.closeWriter

def systemTime : Program A (Option Nat) := perform Op.systemTime

end Program

end Iceberg
