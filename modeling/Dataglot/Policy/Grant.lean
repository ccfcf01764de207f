/-
Deny-unless-granted access control (`grant.rs`). In grant mode a query runs only
if the session holds `USAGE` on the catalog and `SELECT` on the table of every
scan of its plan; the plan itself is never changed.
-/
import Dataglot.DataFusion.Transform
import Dataglot.Policy.TableScans

namespace Dataglot
open DataFusion

inductive AuthzMode
  | open
  | grant
  deriving DecidableEq, Repr

inductive GrantObject
  | catalog (catalog : String)
  | table (catalog schema table : String)
  deriving DecidableEq, Repr

structure Grant where
  grantee : String
  org : Option String
  object : GrantObject
  deriving DecidableEq, Repr

namespace Grant

def usage (grantee : String) (org : Option String) (catalog : String) : Grant :=
  ⟨grantee, org, .catalog catalog⟩

def select (grantee : String) (org : Option String) (catalog schema table : String) : Grant :=
  ⟨grantee, org, .table catalog schema table⟩

def appliesTo (g : Grant) (id : Identity) : Bool :=
  if !orgRuleApplies g.org id then false
  else
    let matchesUser := id.user == some g.grantee
    let matchesRole := id.roles.any fun r => r == g.grantee
    matchesUser || matchesRole

end Grant

def eqIgnoreAsciiCase (a b : String) : Bool :=
  a.toList.map Char.toLower == b.toList.map Char.toLower

def isSystemSchema (schema : String) : Bool :=
  eqIgnoreAsciiCase schema "pg_catalog" || eqIgnoreAsciiCase schema "information_schema"

def usageDenied (catalog : String) : DataFusionError :=
  .plan s!"permission denied: no USAGE privilege on catalog \"{catalog}\""

def selectDenied (catalog schema table : String) : DataFusionError :=
  .plan s!"permission denied: no SELECT privilege on table \"{catalog}.{schema}.{table}\""

/-- `GrantEnforcer`: the live grant set, of every org, and the defaults a scan is resolved with. -/
structure GrantEnforcer where
  mode : AuthzMode
  grants : List Grant
  sessionDefaults : Option (String × String)
  deriving DecidableEq, Repr

namespace GrantEnforcer

def holdsUsage (grants : List Grant) (id : Identity) (catalog : String) : Bool :=
  grants.any fun g => g.object == .catalog catalog && g.appliesTo id

def holdsSelect (grants : List Grant) (id : Identity) (catalog schema table : String) : Bool :=
  grants.any fun g => g.object == .table catalog schema table && g.appliesTo id

/-- `resolve_full`: the triple a scan is checked as. -/
def resolveFull (E : GrantEnforcer) (rel : TableReference) : Option (String × String × String) :=
  let table := rel.table
  match rel.catalog, rel.schema with
  | some catalog, some schema => some (catalog, schema, table)
  | none, some schema => E.sessionDefaults.map fun (dc, _) => (dc, schema, table)
  | none, none => E.sessionDefaults.map fun (dc, ds) => (dc, ds, table)
  | some _, none => none

/-- `missing_privilege`: the refusal of a scan, if it is refused. -/
def missingPrivilege (E : GrantEnforcer) (grants : List Grant) (id : Identity) (rel : TableReference) :
    Option DataFusionError := do
  let (catalog, schema, table) ← E.resolveFull rel
  if isSystemSchema schema then none
  else if !holdsUsage grants id catalog then some (usageDenied catalog)
  else if !holdsSelect grants id catalog schema table then some (selectDenied catalog schema table)
  else none

def rewrite (E : GrantEnforcer) (plan : LogicalPlan) (id : Identity) :
    Except DataFusionError (Transformed LogicalPlan) := do
  -- Open mode is inert; a superuser is not checked.
  if E.mode = .open ∨ id.isSuperuser then
    return .no plan
  tryForEachTableScan (fun rel =>
    match E.missingPrivilege E.grants id rel with
    | some err => .error err
    | none => .ok ()) plan
  return .no plan

end GrantEnforcer

/-! ## What a session may read -/

/-- The grant is for this session: its org is the session's, or it has none, and its grantee is the
session's user or one of its roles. -/
def Grant.Covers (g : Grant) (id : Identity) : Prop :=
  (g.org = none ∨ g.org = id.org) ∧ (id.user = some g.grantee ∨ g.grantee ∈ id.roles)

/-- The session holds the grants that reading the table takes. -/
structure Granted (grants : List Grant) (id : Identity) (catalog schema table : String) : Prop where
  usage : ∃ g ∈ grants, g.object = .catalog catalog ∧ g.Covers id
  select : ∃ g ∈ grants, g.object = .table catalog schema table ∧ g.Covers id

/-- A scan that passes: it has no full triple, lies in a system schema, or is granted. -/
def GrantEnforcer.Readable (E : GrantEnforcer) (id : Identity) (rel : TableReference) : Prop :=
  ∀ catalog schema table, E.resolveFull rel = some (catalog, schema, table) →
    isSystemSchema schema = true ∨ Granted E.grants id catalog schema table

@[simp] theorem Grant.appliesTo_iff {g : Grant} {id} : g.appliesTo id = true ↔ g.Covers id := by
  simp [Grant.appliesTo, Grant.Covers, orgRuleApplies]

namespace GrantEnforcer

variable {E : GrantEnforcer} {id : Identity}

theorem granted_iff {grants : List Grant} {catalog schema table} : Granted grants id catalog schema table ↔
      holdsUsage grants id catalog = true ∧ holdsSelect grants id catalog schema table = true := by
  simp only [holdsUsage, holdsSelect, List.any_eq_true, Bool.and_eq_true, beq_iff_eq, Grant.appliesTo_iff]
  exact ⟨fun h => ⟨h.usage, h.select⟩, fun h => ⟨h.1, h.2⟩⟩

theorem missingPrivilege_eq_none {rel} : E.missingPrivilege E.grants id rel = none ↔ E.Readable id rel := by
  simp only [missingPrivilege, Readable, granted_iff]
  cases E.resolveFull rel with
  | none => simp
  | some r =>
    obtain ⟨catalog, schema, table⟩ := r
    simp only [Option.bind_eq_bind, Option.bind_some, Option.some.injEq, Prod.mk.injEq]
    split_ifs <;> simp_all

theorem check_ok_iff {rel} :
    (match E.missingPrivilege E.grants id rel with
      | some err => .error err
      | none => .ok ()) = (.ok () : Except DataFusionError Unit) ↔ E.Readable id rel := by
  rw [← missingPrivilege_eq_none]
  cases E.missingPrivilege E.grants id rel <;> simp

theorem eq_no_of_rewrite {plan r} (h : E.rewrite plan id = .ok r) : r = .no plan := by
  unfold rewrite at h
  split_ifs at h
  · exact (Except.ok.inj h).symm
  · simp only [Except.bind_ok_iff, Except.pure_ok_iff] at h
    obtain ⟨-, -, rfl⟩ := h
    rfl

theorem rewrite_ok_iff_of_checked {plan} (h : ¬ (E.mode = .open ∨ id.isSuperuser)) :
    (∃ r, E.rewrite plan id = .ok r) ↔ ∀ t, Scanned t plan → E.missingPrivilege E.grants id t = none := by
  have hw := tryForEachTableScan_ok (p := plan) fun rel =>
    match E.missingPrivilege E.grants id rel with
    | some err => .error err
    | none => (.ok () : Except DataFusionError Unit)
  simp only [check_ok_iff, ← missingPrivilege_eq_none] at hw
  simp only [rewrite, if_neg h, Except.exists_bind_ok_iff, Except.pure_ok_iff, exists_eq', and_true, ← hw]
  exact ⟨fun h => h.elim fun _ h => h, fun h => ⟨(), h⟩⟩

/-- **Deny unless granted.** In grant mode a session that is not a superuser's gets its plan back,
unchanged, exactly when every scan of the plan is readable to it, those of subqueries embedded in
expressions at any depth included. -/
theorem rewrite_ok_iff_readable (E : GrantEnforcer) (id : Identity) (plan : LogicalPlan)
    (hmode : E.mode = .grant) (hid : id.isSuperuser = false) :
    ((∃ r, E.rewrite plan id = .ok r) ↔ ∀ t, Scanned t plan → E.Readable id t) ∧
      ∀ r, E.rewrite plan id = .ok r → r = .no plan := by
  have hc : ¬ (E.mode = .open ∨ id.isSuperuser) := by simp [hmode, hid]
  refine ⟨?_, fun r hr => eq_no_of_rewrite hr⟩
  rw [rewrite_ok_iff_of_checked hc]
  simp only [missingPrivilege_eq_none]

/-- `SELECT (SELECT max(x) FROM c.s.inner) FROM c.s.outer` as a session that holds all three grants. -/
theorem rewrite_nested_subquery_readable :
    let E : GrantEnforcer := ⟨.grant, [.usage "analyst" (some "acme") "c",
      .select "analyst" (some "acme") "c" "s" "outer", .select "ann" (some "acme") "c" "s" "inner"],
      some ("c", "s")⟩
    let id : Identity := ((Identity.ofUser "ann").withOrg "acme").withRoles ["analyst"]
    let sub : Expr := .scalarSubquery (.node .aggregate "" [.op "max" [.column ⟨none, "x"⟩]]
      [.tableScan (.bare "inner") none [] none] [⟨none, "max(x)"⟩]) []
    let plan : LogicalPlan := .projection [.op "+" [sub, sub]]
      (.tableScan (.full "c" "s" "outer") none [] none) [⟨none, "v"⟩]
    (∃ r, E.rewrite plan id = .ok r) ∧ ∀ t, Scanned t plan → E.Readable id t := by
  intro E id sub plan
  have hok : ∃ r, E.rewrite plan id = .ok r := ⟨.no plan, by simp [E, id, sub, plan]; rfl⟩
  exact ⟨hok, (rewrite_ok_iff_readable E id plan rfl rfl).1.mp hok⟩

end GrantEnforcer

end Dataglot
