/-
The simple-query handler of the pg wire front end (`handler.rs`): which statements of a
message go to an admin seam, which to the inner handler, and in which order.

What answers the handler (the admin seams, the session, the inner handler) may answer
anything at each call. A run of the handler is the list of the calls it made, each with
the statement it was made for, and what it returned. The observers of a query, which
only watch, are not modelled.
-/
import Dataglot.Pgwire.ControlPlaneDdl
import Dataglot.Pgwire.SqlSplit
import Dataglot.Server.Startup

namespace Dataglot
open DataFusion Text Option

/-! ## What the handler calls -/

structure PgWireError where
  sqlstate : String
  message : String
  deriving DecidableEq, Repr

inductive CatalogAdminOutcome
  | registered (name : String)
  | dropped (name : String)
  | noOp

inductive ViewAdminOutcome
  | created
  | replaced
  | dropped (catalog schema : Option String) (name : String)
  | noOp

inductive Response (R : Type)
  | execution (tag : String)
  | copyOut
  /-- A response of the inner handler. -/
  | inner (response : R)

inductive Call
  | apply (org : String) (ddl : ControlPlaneDdl)
  | createLogicalPlan (query : String)
  | registerCatalog (name : String)
  | registerTable (reference : TableReference)
  | deregisterTable (reference : TableReference)
  | copyOut (query : Text)
  | inner (query : Text)
  deriving DecidableEq

def Call.isApply : Call → Bool
  | .apply _ _ => true
  | _ => false

/-- What the handler runs in. An answer may depend on every call made before. -/
structure Surroundings (R : Type) where
  /-- The seam is `Some`. -/
  configured : Seam → Bool
  currentSessionOrg : Option String
  catalogApply : List Call → CatalogDdl → Except PgWireError CatalogAdminOutcome
  viewApply : List Call → ViewDdl → Except PgWireError ViewAdminOutcome
  /-- The other four seams, which answer with nothing. -/
  seamApply : List Call → ControlPlaneDdl → Except PgWireError Unit
  createLogicalPlan : List Call → String → Except String Unit
  registerTable : List Call → TableReference → Except String Unit
  deregisterTable : List Call → TableReference → Except String Unit
  buildCopyOutResponse : List Call → Text → Except PgWireError Unit
  applyPreparseRewrites : Text → Option Text
  rejectDeepCompoundIdentifier : Text → Option PgWireError
  innerDoQuery : List Call → Text → Except PgWireError (List R)

/-- The calls that were made, and what was returned. -/
abbrev Outcome (α : Type) := List Call × Except PgWireError α

/-! ## The seams -/

section Seams

variable {R : Type} (E : Surroundings R) (before : List Call)

def Surroundings.org : String := E.currentSessionOrg.getD "default"

/-- `apply_catalog_ddl`. A dropped catalog is shadowed by an empty one. -/
def applyCatalogDdl (ddl : CatalogDdl) : Outcome String :=
  if E.configured .catalog then
    let verb := match ddl with
      | .create .. => "CREATE CATALOG"
      | .alter .. => "ALTER CATALOG"
      | .drop .. => "DROP CATALOG"
    let apply := Call.apply E.org (.catalog ddl)
    match E.catalogApply before ddl with
    | .error e => ([apply], .error e)
    | .ok (.registered name) => ([apply, .registerCatalog name], .ok verb)
    | .ok (.dropped name) => ([apply, .registerCatalog name], .ok verb)
    | .ok .noOp => ([apply], .ok verb)
  else ([], .error ⟨"0A000", "catalog DDL requires a configured catalog_service; this server " ++
    "has none, so CREATE/ALTER/DROP CATALOG is unavailable"⟩)

/-- `apply_secret_ddl` and its like: the seam's answer is only looked at for an error. -/
def applyPlainDdl (ddl : ControlPlaneDdl) (notConfigured verb : String) : Outcome String :=
  if E.configured ddl.seam then ([.apply E.org ddl], (E.seamApply before ddl).map fun _ => verb)
  else ([], .error ⟨"0A000", notConfigured⟩)

def applySecretDdl (ddl : SecretDdl) : Outcome String :=
  applyPlainDdl E before (.secret ddl)
    ("secrets are unavailable: this server needs a configured " ++
      "catalog_service and a DATAGLOT_SECRET_KEY envelope key")
    (match ddl with
      | .create .. => "CREATE SECRET"
      | .drop .. => "DROP SECRET")

def applyUserDdl (ddl : UserDdl) : Outcome String :=
  applyPlainDdl E before (.user ddl)
    ("user management is unavailable: this needs a configured " ++
      "catalog_service, and setting a password additionally needs a " ++
      "DATAGLOT_SECRET_KEY envelope key")
    (match ddl with
      | .createUser .. => "CREATE USER"
      | .alterUserPassword .. => "ALTER USER"
      | .dropUser .. => "DROP USER"
      | .createRole .. => "CREATE ROLE"
      | .dropRole .. => "DROP ROLE")

def applyPolicyDdl (ddl : PolicyDdl) : Outcome String :=
  applyPlainDdl E before (.policy ddl)
    ("policy management is unavailable: this needs a configured " ++
      "catalog_service and a live policy rule store")
    (match ddl with
      | .createMask .. => "CREATE MASK"
      | .createRowFilter .. => "CREATE ROW FILTER"
      | .dropMask .. => "DROP MASK"
      | .dropRowFilter .. => "DROP ROW FILTER")

def applyGrantDdl (ddl : GrantDdl) : Outcome String :=
  applyPlainDdl E before (.grant ddl)
    "grant management is unavailable: this needs a configured catalog_service"
    (match ddl with
      | .grantSelect .. | .grantUsage .. | .grantRole .. => "GRANT"
      | .revokeSelect .. | .revokeUsage .. | .revokeRole .. => "REVOKE")

def viewTableReference : Option String → Option String → String → TableReference
  | some catalog, some schema, name => .full catalog schema name
  | none, some schema, name => .partialRef schema name
  | _, none, name => .bare name

/-- `apply_view_ddl`. A view that is stored but cannot be registered in the session is dropped from the
store again. -/
def applyViewDdl (ddl : ViewDdl) : Outcome String :=
  if E.configured .view then
    let apply := Call.apply E.org (.view ddl)
    match ddl with
    | .create catalog schema name query _ =>
      match E.createLogicalPlan before query with
      | .error e => ([.createLogicalPlan query], .error ⟨"42601", "invalid view query: " ++ e⟩)
      | .ok _ =>
        let calls := [.createLogicalPlan query, apply]
        match E.viewApply (before ++ [.createLogicalPlan query]) ddl with
        | .error e => (calls, .error e)
        | .ok .created | .ok .replaced =>
          let reference := viewTableReference catalog schema name
          match E.registerTable (before ++ calls) reference with
          | .error e =>
            (calls ++ [.registerTable reference, .apply E.org (.view (.drop catalog schema name true))],
              .error ⟨"58000", "register view in session: " ++ e⟩)
          | .ok _ => (calls ++ [.registerTable reference], .ok "CREATE VIEW")
        | .ok (.dropped ..) | .ok .noOp => (calls, .ok "CREATE VIEW")
    | .drop .. =>
      match E.viewApply before ddl with
      | .error e => ([apply], .error e)
      | .ok (.dropped catalog schema name) =>
        let reference := viewTableReference catalog schema name
        match E.deregisterTable (before ++ [apply]) reference with
        | .error e => ([apply, .deregisterTable reference], .error ⟨"58000", "deregister view in session: " ++ e⟩)
        | .ok _ => ([apply, .deregisterTable reference], .ok "DROP VIEW")
      | .ok .created | .ok .replaced | .ok .noOp => ([apply], .ok "DROP VIEW")
  else ([], .error ⟨"0A000", "view DDL requires a configured catalog_service; this server " ++
    "has none, so CREATE/DROP VIEW is unavailable"⟩)

def applyDdl : ControlPlaneDdl → Outcome String
  | .catalog ddl => applyCatalogDdl E before ddl
  | .secret ddl => applySecretDdl E before ddl
  | .user ddl => applyUserDdl E before ddl
  | .policy ddl => applyPolicyDdl E before ddl
  | .grant ddl => applyGrantDdl E before ddl
  | .view ddl => applyViewDdl E before ddl

/-- What holds of a catalog's seam, of a view's, and of those that answer with nothing, holds of every seam. -/
theorem applyDdl_cases {motive : ControlPlaneDdl → Outcome String → Prop}
    (catalog : ∀ ddl, motive (.catalog ddl) (applyCatalogDdl E before ddl))
    (view : ∀ ddl, motive (.view ddl) (applyViewDdl E before ddl))
    (plain : ∀ ddl notConfigured verb, ddl.seam ≠ .view → motive ddl (applyPlainDdl E before ddl notConfigured verb))
    (ddl) : motive ddl (applyDdl E before ddl) := by
  cases ddl with
  | catalog ddl => exact catalog ddl
  | view ddl => exact view ddl
  | secret | user | policy | grant => exact plain _ _ _ nofun

end Seams

/-! ## Other commands of the front end -/

def afterCommand (s : Text) (kw : String) : Option Text := do
  let rest ← stripKeywordCi s kw
  if rest.isEmpty || startsWithWhitespace rest then some rest else none

def noopCommandTag (query : Text) : Option String :=
  let s := withoutTerminator query
  if s.contains ';' then none
  else if (afterCommand s "DISCARD").isSome then some "DISCARD"
  else if (afterCommand s "RESET").isSome then some "RESET"
  else if (afterCommand s "SAVEPOINT").isSome then some "SAVEPOINT"
  else if (afterCommand s "RELEASE").isSome then some "RELEASE"
  else match afterCommand s "ROLLBACK" with
    | some rest => if (afterCommand (trimStart rest) "TO").isSome then some "ROLLBACK" else none
    | none => none

/-- `rfind`: the text before the last occurrence of a pattern, and the text behind it. -/
def splitAtLast (pattern : Text) : Text → Option (Text × Text)
  | [] => if pattern.isEmpty then some ([], []) else none
  | c :: rest =>
    match splitAtLast pattern rest with
    | some (front, back) => some (c :: front, back)
    | none => if pattern.isPrefixOf (c :: rest) then some ([], (c :: rest).drop pattern.length) else none

/-- `u8::is_ascii_whitespace`. -/
def isAsciiWhitespace (c : Char) : Bool := c == ' ' || c == '\t' || c == '\n' || c == '\x0c' || c == '\r'

/-- `detect_copy_to_stdout`: the query whose result is to be copied. -/
def detectCopyToStdout (query : Text) : Option Text := do
  let s ← stripKeywordCi (withoutTerminator query) "copy"
  guard (s.head?.any isAsciiWhitespace)
  let body := trim s
  let (front, back) ← splitAtLast "to stdout".toList (body.map Char.toLower)
  guard (trim back).isEmpty
  let target := trim (body.take front.length)
  if target.head? = some '(' ∧ target.tail.getLast? = some ')' then
    let inner := trim target.tail.dropLast
    if inner.isEmpty then none else some inner
  else if !target.isEmpty && !target.contains '(' then some ("SELECT * FROM ".toList ++ target)
  else none

/-- The words that these commands begin with. -/
def commandKeywords : List String := ["DISCARD", "RESET", "SAVEPOINT", "RELEASE", "ROLLBACK", "copy"]

theorem ledBy_of_afterCommand {s kw} (hm : kw ∈ commandKeywords) (h : (afterCommand s kw).isSome = true) :
    LedBy commandKeywords s := by
  obtain ⟨rest, hr⟩ := isSome_iff_exists.mp h
  simp only [afterCommand, bind_eq_bind, bind_eq_some_iff] at hr
  obtain ⟨after, hs, -⟩ := hr
  exact ⟨kw, hm, isPrefix_of_stripKeywordCi hs⟩

theorem ledBy_of_noopCommandTag {query tag} (h : noopCommandTag query = some tag) :
    LedBy commandKeywords (withoutTerminator query) := by
  unfold noopCommandTag at h
  dsimp only at h
  split_ifs at h with _ hd hrt hs hre
  · exact ledBy_of_afterCommand (by decide) hd
  · exact ledBy_of_afterCommand (by decide) hrt
  · exact ledBy_of_afterCommand (by decide) hs
  · exact ledBy_of_afterCommand (by decide) hre
  · split at h
    next rest hr => exact ledBy_of_afterCommand (by decide : "ROLLBACK" ∈ commandKeywords) (by rw [hr]; rfl)
    next => cases h

theorem ledBy_of_detectCopyToStdout {query inner} (h : detectCopyToStdout query = some inner) :
    LedBy commandKeywords (withoutTerminator query) := by
  simp only [detectCopyToStdout, bind_eq_bind, bind_eq_some_iff] at h
  obtain ⟨s, hs, -⟩ := h
  exact ⟨"copy", by decide, isPrefix_of_stripKeywordCi hs⟩

theorem not_command {query} (h : LedBy (";" :: ddlKeywords) (trimStart query)) :
    noopCommandTag query = none ∧ detectCopyToStdout query = none := by
  have hno : ¬ LedBy commandKeywords (withoutTerminator query) := fun hc =>
    h.elim (hc.of_isPrefix (withoutTerminator_isPrefix query)) (by decide)
  refine ⟨eq_none_iff_forall_ne_some.mpr fun tag ht => ?_, eq_none_iff_forall_ne_some.mpr fun inner hi => ?_⟩
  · exact hno (ledBy_of_noopCommandTag ht)
  · exact hno (ledBy_of_detectCopyToStdout hi)

/-! ## The handler -/

/-- `admin_denial`: a session without a principal, which no server has, is not refused. -/
def adminDenial (principal : Option AuthPrincipal) : Option PgWireError :=
  match principal with
  | some p =>
    if p.canAdmin then none
    else some ⟨"42501", "permission denied: control-plane DDL (CREATE/ALTER/DROP " ++
      "CATALOG/SECRET/USER/ROLE, GRANT/REVOKE, CREATE/DROP " ++
      "MASK/POLICY/VIEW) requires an administrator; this session " ++ "is not authorized"⟩
  | none => none

section Handler

variable {R : Type} (U : UnicodeTables) (E : Surroundings R) (principal : Option AuthPrincipal)

/-- `try_apply_control_plane_ddl`: every parsed statement passes the gate before its seam is called. -/
def tryApplyControlPlaneDdl (before : List Call) (stmt : Text) : Option (Outcome String) :=
  (parseControlPlaneDdl U stmt).map fun ddl =>
    match adminDenial principal with
    | some denied => ([], .error denied)
    | none => applyDdl E before ddl

/-- The body of the loop over the statements of a message. -/
def runStatement (before : List Call) (stmt : Text) : Outcome (List (Response R)) :=
  match tryApplyControlPlaneDdl U E principal before stmt with
  | some (calls, result) => (calls, result.map fun tag => [.execution tag])
  | none => ([.inner stmt], (E.innerDoQuery before stmt).map fun responses => responses.map .inner)

/-- A call, with the statement it was made for. -/
structure Entry where
  statement : Statement
  call : Call
  deriving DecidableEq

/-- The loop over the statements of a message, which an error ends. -/
def runStatements : List Call → List Statement → List Entry × Except PgWireError (List (Response R))
  | _, [] => ([], .ok [])
  | before, s :: rest =>
    match runStatement U E principal before s.text with
    | (calls, .error e) => (calls.map (Entry.mk s), .error e)
    | (calls, .ok responses) =>
      let (entries, result) := runStatements (before ++ calls) rest
      (calls.map (Entry.mk s) ++ entries, result.map (responses ++ ·))

section Loop

variable {U E principal} {before calls : List Call} {s : Statement} (rest : List Statement)

theorem runStatements_cons_error {e} (h : runStatement U E principal before s.text = (calls, .error e)) :
    runStatements U E principal before (s :: rest) = (calls.map (Entry.mk s), .error e) := by
  conv_lhs => unfold runStatements
  rw [h]

theorem runStatements_cons_ok {responses} (h : runStatement U E principal before s.text = (calls, .ok responses)) :
    runStatements U E principal before (s :: rest) =
      (calls.map (Entry.mk s) ++ (runStatements U E principal (before ++ calls) rest).1,
        (runStatements U E principal (before ++ calls) rest).2.map (responses ++ ·)) := by
  conv_lhs => unfold runStatements
  rw [h]

end Loop

/-- The message as one statement. -/
def runMessage (query : Text) : Outcome (List (Response R)) :=
  match noopCommandTag query with
  | some tag => ([], .ok [.execution tag])
  | none =>
    match if isControlPlaneDdl U query then adminDenial principal else none with
    | some denied => ([], .error denied)
    | none =>
      match parseControlPlaneDdl U query with
      | some ddl =>
        let (calls, result) := applyDdl E [] ddl
        (calls, result.map fun tag => [.execution tag])
      | none =>
        match detectCopyToStdout query with
        | some inner => ([.copyOut inner], (E.buildCopyOutResponse [] inner).map fun _ => [.copyOut])
        | none =>
          let effective := (E.applyPreparseRewrites query).getD query
          match E.rejectDeepCompoundIdentifier effective with
          | some e => ([], .error e)
          | none =>
            ([.inner effective], (E.innerDoQuery [] effective).map fun responses => responses.map .inner)

/-- The message goes through the loop: it has several statements, a control-plane one among them. -/
def isBundle (query : Text) : Bool :=
  decide (2 ≤ (splitSqlStatements query).length) && (splitSqlStatements query).any fun s => isControlPlaneDdl U s.text

def doQuery (query : Text) : List Entry × Except PgWireError (List (Response R)) :=
  if isBundle U query then runStatements U E principal [] (splitSqlStatements query)
  else
    let (calls, result) := runMessage U E principal query
    (calls.map (Entry.mk ⟨0, query⟩), result)

end Handler

end Dataglot
