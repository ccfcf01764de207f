/-
`CREATE` and `DROP` of masks and row filters (`policy_admin.rs`), and the replay of what
they have stored at the next start (`load_persisted_policies` in `server.rs`).

A statement reads first, then changes the live rules, then writes the store. The store
knows a policy by org and name; the live rules know it by its target.
-/
import Dataglot.Pgwire.ControlPlaneDdl
import Dataglot.Policy.RuleStore
import Dataglot.Server.PolicyConfig

namespace Dataglot
open DataFusion

/-! ## The stored policies -/

/-- A stored document, as `from_value` reads it. -/
structure PolicyValue where
  asMask : Except String MaskConfig
  asRowFilter : Except String RowFilterConfig

/-- `to_value` of a mask. -/
def MaskConfig.toValue (cfg : MaskConfig) : PolicyValue := ⟨.ok cfg, .error "missing field `predicate`"⟩

/-- `to_value` of a row filter. -/
def RowFilterConfig.toValue (cfg : RowFilterConfig) : PolicyValue := ⟨.error "missing field `column`", .ok cfg⟩

/-- The part of `EmbeddedMetaStore` that policies are kept in: of each org, by name, with their kind. -/
structure PolicyStore where
  orgs : HashMap (HashMap (String × PolicyValue))

namespace PolicyStore

def empty : PolicyStore := ⟨∅⟩

variable (st : PolicyStore)

def getPolicy (org name : String) : Option (String × PolicyValue) :=
  (st.orgs.lookup org).bind fun policies => policies.lookup name

def putPolicy (org name kind : String) (rule : PolicyValue) : PolicyStore :=
  ⟨st.orgs.insert org (((st.orgs.lookup org).getD ∅).insert name (kind, rule))⟩

/-- `delete_policy`. An org without policies stays. -/
def deletePolicy (org name : String) : PolicyStore :=
  match st.orgs.lookup org with
  | some policies => ⟨st.orgs.insert org (policies.erase name)⟩
  | none => st

def listOrgs : List String := st.orgs.keys.insertionSort (· ≤ ·)

/-- The names that `list_policies` gives, as the `BTreeMap` iterates. -/
def listPolicies (org : String) : List String :=
  ((st.orgs.lookup org).map fun policies => policies.keys.insertionSort (· ≤ ·)).getD []

end PolicyStore

/-! ## The statements -/

inductive PolicyOutcome
  | created (name : String)
  | dropped (name : String)
  | noOp
  deriving DecidableEq, Repr

inductive PolicyAdminError
  | alreadyExists (name : String)
  | notFound (name : String)
  | backend (reason : String)
  deriving DecidableEq, Repr

/-- `StorePolicyAdmin`: the stored policies and the live rules. -/
structure StorePolicyAdmin where
  store : PolicyStore
  ruleStore : InMemoryRuleStore

/-- How a write fails: before anything is written, or when it is in the store's memory and does not get to disk. -/
inductive WriteFault
  | unwritten (message : String)
  | written (message : String)

/-- The calls of the store that fail during a statement, which writes at most once. -/
structure StoreFaults where
  read : Option String
  write : Option WriteFault

def StoreFaults.nothing : StoreFaults := ⟨none, none⟩

/-- The last step of a statement. -/
inductive PolicyWrite
  | put (name kind : String) (rule : PolicyValue)
  | delete (name : String)

def PolicyWrite.run (org : String) : PolicyWrite → PolicyStore → PolicyStore
  | .put name kind rule, st => st.putPolicy org name kind rule
  | .delete name, st => st.deletePolicy org name

def PolicyWrite.outcome : PolicyWrite → PolicyOutcome
  | .put name _ _ => .created name
  | .delete name => .dropped name

/-- What a statement is found to be when it has read the store: nothing, or a change of the live rules and a write. -/
inductive Planned
  | noOp
  | commit (change : RuleChange) (write : PolicyWrite)

namespace PolicyAdmin

def kindMask : String := "mask"

def kindRowFilter : String := "row_filter"

/-- `backend`. -/
def storeError (e : String) : PolicyAdminError := .backend ("policy store: " ++ e)

/-! ### What is declared -/

/-- `str::parse::<usize>`. -/
def parseUsize (s : String) : Option Nat :=
  let digits := match s.toList with
    | '+' :: rest => rest
    | chars => chars
  if digits.isEmpty || !digits.all Char.isDigit then none
  else
    let n := digits.foldl (fun n c => 10 * n + (c.toNat - '0'.toNat)) 0
    if n < 2 ^ 64 then some n else none

/-- The closure `keep` of `mask_type_from_options`. -/
def keepOption (maskType : String) (options : HashMap String) : Except PolicyAdminError Nat :=
  match options.lookup "keep" with
  | none => .error (.backend ("mask type " ++ maskType.quote ++ " requires a `keep` option"))
  | some text =>
    match parseUsize text with
    | none => .error (.backend ("mask type " ++ maskType.quote ++ ": `keep` must be a non-negative integer"))
    | some keep => .ok keep

def maskTypeFromOptions (maskType : String) (options : HashMap String) : Except PolicyAdminError MaskTypeConfig :=
  match maskType.toLower with
  | "redact" => .ok .redact
  | "hash" => .ok .hash
  | "nullify" => .ok .nullify
  | "date_year" => .ok .dateYear
  | "show_last" => (keepOption maskType options).map .showLast
  | "show_first" => (keepOption maskType options).map .showFirst
  | "constant" =>
    match options.lookup "value" with
    | none => .error (.backend "mask type \"constant\" requires a `value` option")
    | some value => .ok (.constant value)
  | other =>
    .error (.backend ("unknown mask type " ++ other.quote ++
      " (expected redact / show_last / show_first / hash / nullify / date_year / constant)"))

def maskConfig (table column : String) : PolicyMask → Except PolicyAdminError MaskConfig
  | .literal literal => .ok ⟨table, column, literal, none, none, 0, none⟩
  | .typed maskType options => do
    let maskType ← maskTypeFromOptions maskType options
    return ⟨table, column, "", some maskType, none, 0, none⟩

variable (S : SqlParser) (I : IterationOrder)

/-- The live rule of a `CREATE MASK`, for the org, and the document that is stored. -/
def declareMask (org table column : String) (mask : PolicyMask) : Except PolicyAdminError (RuleChange × PolicyValue) := do
  let cfg ← maskConfig table column mask
  let rules ← (buildMaskRules S I [cfg]).mapError fun e => .backend ("invalid mask: " ++ e)
  match rules.head? with
  | none => .error (.backend "mask produced no rule")
  | some columnMask => return (.maskUpserted { columnMask with org := some org }, cfg.toValue)

/-- The live rule of a `CREATE ROW FILTER`, for the org, and the document that is stored. -/
def declareRowFilter (org table predicate : String) : Except PolicyAdminError (RuleChange × PolicyValue) := do
  let cfg : RowFilterConfig := ⟨table, .sql predicate, none⟩
  let rules ← (buildRowFilterRules S [cfg]).mapError fun e => .backend ("invalid row filter: " ++ e)
  match rules.head? with
  | none => .error (.backend "row filter produced no rule")
  | some rowFilter => return (.rowFilterUpserted { rowFilter with org := some org }, cfg.toValue)

/-- The live rule that a stored mask has made. -/
def removeMask (org : String) (rule : PolicyValue) : Except PolicyAdminError RuleChange := do
  let cfg ← rule.asMask.mapError fun e => .backend ("stored mask is corrupt: " ++ e)
  let table ← (parseTableRef S cfg.table).mapError fun e => .backend ("stored mask table: " ++ e)
  return .maskRemoved table cfg.column (some org)

/-- The live rule that a stored row filter has made. -/
def removeRowFilter (org : String) (rule : PolicyValue) : Except PolicyAdminError RuleChange := do
  let cfg ← rule.asRowFilter.mapError fun e => .backend ("stored row filter is corrupt: " ++ e)
  let table ← (parseTableRef S cfg.table).mapError fun e => .backend ("stored row-filter table: " ++ e)
  return .rowFilterRemoved table (some org)

/-! ### Reading, enforcing, writing -/

section Statements

variable (faults : StoreFaults) (st : PolicyStore) (org : String)

/-- `get_policy`, which may fail. -/
def readPolicy (name : String) : Except PolicyAdminError (Option (String × PolicyValue)) :=
  match faults.read with
  | some e => .error (storeError e)
  | none => .ok (st.getPolicy org name)

/-- `create_mask` and `create_row_filter` before they enforce. -/
def createPolicy (name kind : String) (ifNotExists : Bool) (declared : Except PolicyAdminError (RuleChange × PolicyValue)) :
    Except PolicyAdminError Planned := do
  match ← readPolicy faults st org name with
  | some _ => if ifNotExists then return .noOp else throw (.alreadyExists name)
  | none =>
    let (change, rule) ← declared
    return .commit change (.put name kind rule)

/-- `drop_mask` and `drop_row_filter` before they enforce. A policy of another kind is none. -/
def dropPolicy (name kind : String) (ifExists : Bool) (remove : PolicyValue → Except PolicyAdminError RuleChange) :
    Except PolicyAdminError Planned := do
  match (← readPolicy faults st org name).filter fun policy => policy.1 == kind with
  | none => if ifExists then return .noOp else throw (.notFound name)
  | some (_, rule) =>
    let change ← remove rule
    return .commit change (.delete name)

def createMask (name table column : String) (mask : PolicyMask) (ifNotExists : Bool) : Except PolicyAdminError Planned :=
  createPolicy faults st org name kindMask ifNotExists (declareMask S I org table column mask)

def createRowFilter (name table predicate : String) (ifNotExists : Bool) : Except PolicyAdminError Planned :=
  createPolicy faults st org name kindRowFilter ifNotExists (declareRowFilter S org table predicate)

def dropMask (name : String) (ifExists : Bool) : Except PolicyAdminError Planned :=
  dropPolicy faults st org name kindMask ifExists (removeMask S org)

def dropRowFilter (name : String) (ifExists : Bool) : Except PolicyAdminError Planned :=
  dropPolicy faults st org name kindRowFilter ifExists (removeRowFilter S org)

def plan : PolicyDdl → Except PolicyAdminError Planned
  | .createMask name table column mask ifNotExists => createMask S I faults st org name table column mask ifNotExists
  | .createRowFilter name table predicate ifNotExists => createRowFilter S faults st org name table predicate ifNotExists
  | .dropMask name ifExists => dropMask S faults st org name ifExists
  | .dropRowFilter name ifExists => dropRowFilter S faults st org name ifExists

end Statements

variable (debug : Expr → String)

/-- Enforce, then write: the end of each statement. -/
def commit (faults : StoreFaults) (admin : StorePolicyAdmin) (org : String) (change : RuleChange)
    (write : PolicyWrite) : StorePolicyAdmin × Except PolicyAdminError PolicyOutcome :=
  match admin.ruleStore.apply debug change with
  | (ruleStore, .error e) =>
    ({ admin with ruleStore }, .error (.backend ("policy enforcement rejected: " ++ e.message)))
  | (ruleStore, .ok _) =>
    match faults.write with
    | none => (⟨write.run org admin.store, ruleStore⟩, .ok write.outcome)
    | some (.unwritten e) => ({ admin with ruleStore }, .error (storeError e))
    | some (.written e) => (⟨write.run org admin.store, ruleStore⟩, .error (storeError e))

def apply (faults : StoreFaults) (admin : StorePolicyAdmin) (org : String) (ddl : PolicyDdl) :
    StorePolicyAdmin × Except PolicyAdminError PolicyOutcome :=
  match plan S I faults admin.store org ddl with
  | .error e => (admin, .error e)
  | .ok .noOp => (admin, .ok .noOp)
  | .ok (.commit change write) => commit debug faults admin org change write

/-! ## Replay -/

/-- The changes that a stored policy is replayed as. -/
def persistedChanges (org name kind : String) (rule : PolicyValue) : Except String (List RuleChange) :=
  match kind with
  | "mask" => do
    let cfg ← rule.asMask.mapError fun _ => "persisted mask " ++ name.quote ++ " is corrupt"
    let masks ← buildMaskRules S I [cfg]
    return masks.map fun mask => .maskUpserted { mask with org := some org }
  | "row_filter" => do
    let cfg ← rule.asRowFilter.mapError fun _ => "persisted row filter " ++ name.quote ++ " is corrupt"
    let filters ← buildRowFilterRules S [cfg]
    return filters.map fun filter => .rowFilterUpserted { filter with org := some org }
  | _ => return []

/-- What a change that is refused at the start is reported as. -/
def applyPersisted (org name : String) (ruleStore : InMemoryRuleStore) (change : RuleChange) :
    Except String InMemoryRuleStore :=
  match ruleStore.apply debug change with
  | (ruleStore, .ok _) => .ok ruleStore
  | (_, .error _) =>
    let rule := match change with
      | .maskUpserted _ | .maskRemoved .. => "mask "
      | .rowFilterUpserted _ | .rowFilterRemoved .. => "row filter "
    .error ("apply persisted " ++ rule ++ name.quote ++ " for org " ++ org.quote)

/-- The body of the loops of `load_persisted_policies`. -/
def loadPolicy (st : PolicyStore) (org : String) (ruleStore : InMemoryRuleStore) (name : String) :
    Except String InMemoryRuleStore :=
  match st.getPolicy org name with
  | none => .ok ruleStore
  | some (kind, rule) => do
    let changes ← persistedChanges S I org name kind rule
    changes.foldlM (applyPersisted debug org name) ruleStore

def loadPersistedPolicies (st : PolicyStore) (ruleStore : InMemoryRuleStore) : Except String InMemoryRuleStore :=
  st.listOrgs.foldlM (fun ruleStore org => (st.listPolicies org).foldlM (loadPolicy S I debug st org) ruleStore) ruleStore

end PolicyAdmin

end Dataglot
