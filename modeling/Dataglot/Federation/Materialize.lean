/-
Warehouse table materialization (`materialize.rs`) and the sweep of its leftovers
(`iceberg.rs`), as programs over the catalog.

An overwrite writes the new snapshot to a staging table and then swaps names: it parks the
live table, validates the parked version, promotes the staging table and drops the parked
one. Between any two operations the other programs of the warehouse may do theirs, and the
process may stop.
-/
import Mathlib
import Dataglot.Federation.Catalog

namespace Dataglot
open Iceberg
open Programs

inductive DataglotError
  | catalog (message : String)
  | concurrentModification (message : String)
  deriving DecidableEq

structure MaterializeOutcome where
  table : Name
  rows : Nat
  dataFiles : Nat
  deriving DecidableEq

/-- The version an overwrite expects the target to be at. -/
inductive ExpectedVersion
  | any
  | absent
  | snapshot (base : Option Int)
  deriving DecidableEq

/-- `__dataglot_staging_` -/
def stagingInfix : Name :=
  ['_', '_', 'd', 'a', 't', 'a', 'g', 'l', 'o', 't', '_', 's', 't', 'a', 'g', 'i', 'n', 'g', '_']

/-- `__dataglot_parked_` -/
def parkedInfix : Name :=
  ['_', '_', 'd', 'a', 't', 'a', 'g', 'l', 'o', 't', '_', 'p', 'a', 'r', 'k', 'e', 'd', '_']

/-- A staging or parked table, by its name. -/
def isMaintenanceArtifact (name : Name) : Bool := stagingInfix <:+: name || parkedInfix <:+: name

def stagingName (table token : Name) : Name := table ++ stagingInfix ++ token

def parkedName (table token : Name) : Name := table ++ parkedInfix ++ token

namespace Materialize

variable {A : Arrow}

/-- The `Debug` text of an optional snapshot id. -/
def debugVersion : Option Int → String
  | none => "None"
  | some id => s!"Some({id})"

def rebindBatch (batch : A.Batch) (annotated : A.Schema) : Except DataglotError A.Batch :=
  (A.tryNew annotated batch).mapError fun e =>
    .catalog s!"query result does not match the materialized table schema: {e}"

/-! ## Writing the staging table -/

def bestEffortDrop (ident : TableIdent) (purpose : DropPurpose) : Program A Unit := do
  -- a failure is only logged
  let _ ← dropTable ident purpose
  return ()

/-- Drop a table that a crashed run may have left; a failed probe counts as none. -/
def clearLeftover (ident : TableIdent) (purpose : DropPurpose) : Program A Unit := do
  match ← tableExists ident with
  | .ok true => bestEffortDrop ident purpose
  | _ => return ()

/-- The loop of `write_stream_and_commit`: the rows read and the batches written so far. -/
def writeBatches (annotated : A.Schema) : List (Except String A.Batch) → Nat → List A.Batch →
    Program A (Except DataglotError (Nat × List A.Batch))
  | [], rows, written => return .ok (rows, written)
  | .error e :: _, _, _ => return .error (.catalog s!"failed to read a query-result batch to write: {e}")
  | .ok batch :: rest, rows, written =>
    if A.numRows batch = 0 then
      writeBatches annotated rest rows written
    else
      match rebindBatch batch annotated with
      | .error e => return .error e
      | .ok rebound => do
        match ← file (.write rebound) with
        | .error e => return .error (.catalog s!"failed to write batch to warehouse: {e}")
        | .ok () => writeBatches annotated rest (rows + A.numRows batch) (written ++ [rebound])

def commitFiles (staging : TableIdent) (written : List A.Batch) (dataFiles rows : Nat) :
    Program A (Except DataglotError (Nat × Nat)) := do
  -- nothing written leaves the staging table without a snapshot
  if written.isEmpty || dataFiles == 0 then
    return .ok (0, rows)
  match ← file .stageAppend with
  | .error e => return .error (.catalog s!"failed to stage warehouse append: {e}")
  | .ok () =>
    match ← commitAppend staging written with
    | .error e => return .error (.catalog s!"failed to commit warehouse append: {e}")
    | .ok () => return .ok (dataFiles, rows)

/-- `write_stream_and_commit`: the number of data files and of rows. -/
def writeStreamAndCommit (staging : TableIdent) (stream : List (Except String A.Batch)) (annotated : A.Schema) :
    Program A (Except DataglotError (Nat × Nat)) := do
  match ← file .layout with
  | .error e => return .error (.catalog s!"failed to initialize warehouse file layout: {e}")
  | .ok () =>
  match ← file .openWriter with
  | .error e => return .error (.catalog s!"failed to open warehouse writer: {e}")
  | .ok () =>
  match ← writeBatches annotated stream 0 [] with
  | .error e => return .error e
  | .ok (rows, written) =>
  match ← closeWriter with
  | .error e => return .error (.catalog s!"failed to finalize warehouse files: {e}")
  | .ok dataFiles => commitFiles staging written dataFiles rows

/-! ## The swap -/

/-- Release the parked table and give up. -/
def release (parked target staging : TableIdent) (error : DataglotError) :
    Program A (Except DataglotError Unit) := do
  -- a failed rollback is only logged: the live table is left parked
  let _ ← renameTable parked target
  bestEffortDrop staging .stagingCleanup
  return .error error

def validateParkedVersion (table : Name) (parked target staging : TableIdent) (base : Option Int) :
    Program A (Except DataglotError Unit) := do
  match ← loadTable parked with
  | .error e =>
    release parked target staging (.catalog s!"failed to read the parked table to validate its version: {e}")
  | .ok t =>
    if t.snapshotId = base then
      return .ok ()
    else
      release parked target staging (.concurrentModification
        ("overwrite of " ++ String.ofList table ++ " expected version " ++ debugVersion base ++
          ", but the live table is now at " ++ debugVersion t.snapshotId ++
          " — a concurrent writer committed; re-read and retry"))

/-- The expectation checks that do not need the claim. -/
def refusal (table : Name) (targetExists : Bool) : ExpectedVersion → Option DataglotError
  | .absent =>
    if targetExists then
      some (.concurrentModification ("overwrite of " ++ String.ofList table ++
        " expected no existing table (first load), but a concurrent writer created it"))
    else none
  | .snapshot base =>
    if targetExists then none
    else
      some (.concurrentModification ("overwrite of " ++ String.ofList table ++ " expected version " ++
        debugVersion base ++ ", but the table no longer exists"))
  | .any => none

/-- Park the live table, if there is one, and validate its version. -/
def park (table : Name) (parked target staging : TableIdent) (targetExists : Bool) (expected : ExpectedVersion) :
    Program A (Except DataglotError Unit) := do
  if targetExists then
    match ← renameTable target parked with
    | .error e =>
      bestEffortDrop staging .stagingCleanup
      return .error (.catalog s!"failed to park the live table before swap: {e}")
    | .ok () =>
      match expected with
      | .snapshot base => validateParkedVersion table parked target staging base
      | _ => return .ok ()
  else
    return .ok ()

/-- What an overwrite returns whose promote failed. -/
def promoteFailed (table : Name) (target : TableIdent) (expected : ExpectedVersion) (e : String) :
    Program A (Except DataglotError Unit) := do
  match expected with
  | .absent =>
    match ← tableExists target with
    | .ok true =>
      return .error (.concurrentModification ("overwrite of " ++ String.ofList table ++
        " (first load) lost the race — a concurrent writer created the table; re-read and retry"))
    | _ => return .error (.catalog s!"failed to promote the refreshed table (rolled back): {e}")
  | _ => return .error (.catalog s!"failed to promote the refreshed table (rolled back): {e}")

def rollBack (parked target : TableIdent) (targetExists : Bool) : Program A Unit := do
  if targetExists then
    let _ ← renameTable parked target
    return ()
  else
    return ()

def dropParked (parked : TableIdent) (targetExists : Bool) : Program A Unit := do
  if targetExists then
    let _ ← dropTable parked .parked
    return ()
  else
    return ()

def promote (table : Name) (parked target staging : TableIdent) (targetExists : Bool) (expected : ExpectedVersion) :
    Program A (Except DataglotError Unit) := do
  match ← renameTable staging target with
  | .error e =>
    rollBack parked target targetExists
    bestEffortDrop staging .stagingCleanup
    promoteFailed table target expected e
  | .ok () =>
    dropParked parked targetExists
    return .ok ()

/-- The swap, once a parked table of the same token is out of the way. -/
def swap (table : Name) (parked target staging : TableIdent) (expected : ExpectedVersion) :
    Program A (Except DataglotError Unit) := do
  match ← tableExists target with
  | .error e =>
    bestEffortDrop staging .stagingCleanup
    return .error (.catalog s!"failed to probe the live table before swap: {e}")
  | .ok targetExists =>
  match refusal table targetExists expected with
  | some refused =>
    bestEffortDrop staging .stagingCleanup
    return .error refused
  | none =>
  match ← park table parked target staging targetExists expected with
  | .error e => return .error e
  | .ok () => promote table parked target staging targetExists expected

def blueGreenPromote (ns table : Name) (staging : TableIdent) (token : Name) (expected : ExpectedVersion) :
    Program A (Except DataglotError Unit) := do
  let target : TableIdent := ⟨ns, table⟩
  let parked : TableIdent := ⟨ns, parkedName table token⟩
  -- a same-token retry may have left a parked table behind
  clearLeftover parked .preClean
  swap table parked target staging expected

/-! ## Overwrites -/

structure Overwrite (A : Arrow) where
  ns : Name
  table : Name
  schema : A.Schema
  stream : List (Except String A.Batch)
  token : Name
  expected : ExpectedVersion

def Overwrite.target (o : Overwrite A) : TableIdent := ⟨o.ns, o.table⟩

def Overwrite.staging (o : Overwrite A) : TableIdent := ⟨o.ns, stagingName o.table o.token⟩

def overwriteTableStreamChecked (o : Overwrite A) : Program A (Except DataglotError MaterializeOutcome) := do
  match A.toIceberg o.schema with
  | .error e => return .error (.catalog s!"cannot map query result to a materialized table schema: {e}")
  | .ok icebergSchema =>
  match A.toArrow icebergSchema with
  | .error e => return .error (.catalog s!"materialized table schema is not representable as Arrow: {e}")
  | .ok annotated =>
  clearLeftover o.staging .stagingCleanup
  match ← createTable o.staging icebergSchema with
  | .error e => return .error (.catalog s!"failed to create staging table for refresh: {e}")
  | .ok () =>
  match ← writeStreamAndCommit o.staging o.stream annotated with
  | .error e =>
    bestEffortDrop o.staging .stagingCleanup
    return .error e
  | .ok (dataFiles, rows) =>
  match ← blueGreenPromote o.ns o.table o.staging o.token o.expected with
  | .error e => return .error e
  | .ok () => return .ok ⟨o.table, rows, dataFiles⟩

def overwriteTableChecked (ns table : Name) (schema : A.Schema) (batches : List A.Batch) (token : Name)
    (expected : ExpectedVersion) : Program A (Except DataglotError MaterializeOutcome) :=
  overwriteTableStreamChecked ⟨ns, table, schema, batches.map .ok, token, expected⟩

/-! ## The sweep -/

def i64Max : Int := 2 ^ 63 - 1

/-- `i64::try_from`, or the greatest `i64`. -/
def toI64 (ms : Nat) : Int := min ms i64Max

def saturatingSub (a b : Int) : Int := max (-i64Max - 1) (min i64Max (a - b))

/-- A clock before the epoch counts as the end of time. -/
def nowMs (clock : Option Nat) : Int := (clock.map toI64).getD i64Max

def sweepEach (now minAge : Int) : List TableIdent → List Name → Program A (List Name)
  | [], dropped => return dropped
  | ident :: rest, dropped =>
    if isMaintenanceArtifact ident.name then do
      match ← loadTable ident with
      | .error _ => sweepEach now minAge rest dropped
      | .ok loaded =>
        if saturatingSub now loaded.lastUpdatedMs < minAge then
          -- too young: it may belong to a write in flight
          sweepEach now minAge rest dropped
        else do
          match ← dropTable ident .sweep with
          | .error _ => sweepEach now minAge rest dropped
          | .ok () => sweepEach now minAge rest (dropped ++ [ident.name])
    else
      sweepEach now minAge rest dropped

def sweepOrphanMaintenanceTables (ns : Name) (minAge : Nat) : Program A (Except DataglotError (List Name)) := do
  match ← listTables ns with
  | .error e =>
    return .error (.catalog ("failed to list warehouse namespace '" ++ String.ofList ns ++ "' for orphan sweep: " ++ e))
  | .ok idents => do
    let clock ← systemTime
    let dropped ← sweepEach (nowMs clock) (toI64 minAge) idents []
    return .ok dropped

end Materialize

end Dataglot
