/-
Access denial (`access_deny.rs`): a query that scans a denied table or writes a
qualified reference to a denied column fails to plan. Nothing is rewritten.

`rewrite_ok_iff` says which queries get through, by what the plan scans and which
columns its expressions name, at any depth of subqueries.
-/
import Dataglot.DataFusion.Transform
import Dataglot.Policy.TableScans

namespace Dataglot
open DataFusion Except Expr List

structure AccessDenial where
  table : TableReference
  /-- the denied column, or none for the table itself -/
  column : Option String
  groups : List String
  deriving DecidableEq, Repr

/-- `AccessDenial::applies_to`: a denial without groups is for everyone. -/
def AccessDenial.appliesTo (d : AccessDenial) (id : Identity) : Bool :=
  d.groups.isEmpty || d.groups.any fun g => id.orgGroups.any fun og => og == g

structure AccessDenyEnforcer where
  denials : List AccessDenial

def tableDenied (table : TableReference) : DataFusionError :=
  .plan ("permission denied: access to table \"" ++ table.render ++ "\" is denied by policy")

def columnDenied (table : TableReference) (column : String) : DataFusionError :=
  .plan ("permission denied: access to column \"" ++ column ++ "\" of table \"" ++ table.render ++
    "\" is denied by policy")

def tableMatches (denial reference : TableReference) : Bool :=
  (matchCandidates reference).any fun cand => cand == denial

mutual

/-- The walk of `deny_columns_in`: every column of every expression, the plan of a subquery when the
walk comes to the expression that holds it. -/
def forEachColumn {ε : Type} (f : Column → Except ε Unit) : LogicalPlan → Except ε Unit
  | .tableScan _ _ filters _ => columnsOfExprs f filters
  | .filter predicate input => do columnsOfExpr f predicate; forEachColumn f input
  | .projection expr input _ => do columnsOfExprs f expr; forEachColumn f input
  | .subqueryAlias _ input => forEachColumn f input
  | .node _ _ exprs inputs _ => do columnsOfExprs f exprs; columnsOfInputs f inputs

def columnsOfInputs {ε : Type} (f : Column → Except ε Unit) : List LogicalPlan → Except ε Unit
  | [] => .ok ()
  | p :: ps => do forEachColumn f p; columnsOfInputs f ps

def columnsOfExpr {ε : Type} (f : Column → Except ε Unit) : Expr → Except ε Unit
  | .column c => f c
  | .scalarSubquery q _ => forEachColumn f q
  | .inSubquery e q _ _ => do forEachColumn f q; columnsOfExpr f e
  | .setComparison e q _ _ _ => do forEachColumn f q; columnsOfExpr f e
  | .existsSubquery q _ _ => forEachColumn f q
  | .aliasExpr e _ _ => columnsOfExpr f e
  | .op _ args => columnsOfExprs f args
  | .outerReferenceColumn _ => .ok ()
  | .literal _ => .ok ()

def columnsOfExprs {ε : Type} (f : Column → Except ε Unit) : List Expr → Except ε Unit
  | [] => .ok ()
  | e :: es => do columnsOfExpr f e; columnsOfExprs f es

end

namespace AccessDenyEnforcer

def new (denials : List AccessDenial) : AccessDenyEnforcer := ⟨denials⟩

/-- The check at a scan: the first denial of the table, if there is one. -/
def checkScan (applicable : List AccessDenial) (t : TableReference) : Except DataFusionError Unit :=
  match applicable.find? fun d => d.column.isNone && tableMatches d.table t with
  | some d => .error (tableDenied d.table)
  | none => .ok ()

/-- The check at a column: an unqualified reference is let through. -/
def checkColumn (applicable : List AccessDenial) (c : Column) : Except DataFusionError Unit :=
  match c.relation with
  | none => .ok ()
  | some relation =>
    match applicable.find? fun d => d.column == some c.name && tableMatches d.table relation with
    | some d => .error (columnDenied d.table c.name)
    | none => .ok ()

def denyColumnsIn (plan : LogicalPlan) (applicable : List AccessDenial) : Except DataFusionError Unit :=
  forEachColumn (checkColumn applicable) plan

def rewrite (E : AccessDenyEnforcer) (plan : LogicalPlan) (id : Identity) :
    Except DataFusionError (Transformed LogicalPlan) :=
  let applicable := E.denials.filter fun d => d.appliesTo id
  if E.denials.isEmpty || applicable.isEmpty then .ok (.no plan)
  else do
    tryForEachTableScan (checkScan applicable) plan
    denyColumnsIn plan applicable
    return .no plan

end AccessDenyEnforcer

/-! ## The columns a plan reads -/

/-- An expression somewhere in the plan, at any depth of subqueries, has `c` as a sub-expression. -/
def Reads (c : Column) (p : LogicalPlan) : Prop :=
  ∃ q : LogicalPlan, q.Within p ∧ ∃ e ∈ q.expressions, .column c ∈ e.nodes

theorem reads_iff {c p} : Reads c p ↔
    (∃ e ∈ p.expressions, .column c ∈ e.nodes ∨ ∃ q, e.Embeds q ∧ Reads c q) ∨ ∃ q ∈ p.inputs, Reads c q := by
  constructor
  · rintro ⟨q, hw, e, he, hc⟩
    cases hw with
    | refl => exact .inl ⟨e, he, .inl hc⟩
    | input hi hw => exact .inr ⟨_, hi, q, hw, e, he, hc⟩
    | subquery he' hs hw => exact .inl ⟨_, he', .inr ⟨_, hs, q, hw, e, he, hc⟩⟩
  · rintro (⟨e, he, hc | ⟨q, hq, s, hw, e', he', hc⟩⟩ | ⟨q, hq, s, hw, e, he, hc⟩)
    · exact ⟨p, .refl, e, he, hc⟩
    · exact ⟨s, .subquery he hq hw, e', he', hc⟩
    · exact ⟨s, .input hq hw, e, he, hc⟩

section Walk

variable {ε : Type} {f : Column → Except ε Unit}

theorem columnsOfInputs_ok {ps} : columnsOfInputs f ps = .ok () ↔ ∀ p ∈ ps, forEachColumn f p = .ok () := by
  induction ps with
  | nil => simp [columnsOfInputs]
  | cons p ps ih => simp [columnsOfInputs, andThen_ok_iff, ih]

mutual

theorem columnsOfExpr_ok : ∀ {e}, columnsOfExpr f e = .ok () ↔
    (∀ c, .column c ∈ e.nodes → f c = .ok ()) ∧ ∀ q, e.Embeds q → forEachColumn f q = .ok ()
  | .column c => by simp [columnsOfExpr, nodes]
  | .outerReferenceColumn _ => by simp [columnsOfExpr, nodes]
  | .literal _ => by simp [columnsOfExpr, nodes]
  | .scalarSubquery q _ => by simp [columnsOfExpr, nodes]
  | .existsSubquery q _ _ => by simp [columnsOfExpr, nodes]
  | .inSubquery e q _ _ => by
    simp [columnsOfExpr, nodes, andThen_ok_iff, @columnsOfExpr_ok e, or_imp, forall_and, and_left_comm]
  | .setComparison e q _ _ _ => by
    simp [columnsOfExpr, nodes, andThen_ok_iff, @columnsOfExpr_ok e, or_imp, forall_and, and_left_comm]
  | .aliasExpr e _ _ => by simp [columnsOfExpr, nodes, @columnsOfExpr_ok e]
  | .op _ args => by
    simp only [columnsOfExpr, @columnsOfExprs_ok args, nodes, nodesList_eq_flatMap, mem_cons,
      reduceCtorEq, false_or, mem_flatMap, embeds_op]
    constructor
    · exact fun h => ⟨fun c ⟨e, he, hc⟩ => (h e he).1 c hc, fun q ⟨e, he, hq⟩ => (h e he).2 q hq⟩
    · exact fun h e he => ⟨fun c hc => h.1 c ⟨e, he, hc⟩, fun q hq => h.2 q ⟨e, he, hq⟩⟩

theorem columnsOfExprs_ok : ∀ {es}, columnsOfExprs f es = .ok () ↔ ∀ e ∈ es,
    (∀ c, .column c ∈ e.nodes → f c = .ok ()) ∧ ∀ q, e.Embeds q → forEachColumn f q = .ok ()
  | [] => by simp [columnsOfExprs]
  | e :: es => by
    simp [columnsOfExprs, andThen_ok_iff, @columnsOfExpr_ok e, @columnsOfExprs_ok es]

end

theorem forEachColumn_ok_step {p} : forEachColumn f p = .ok () ↔
    (∀ e ∈ p.expressions, (∀ c, .column c ∈ e.nodes → f c = .ok ()) ∧ ∀ q, e.Embeds q → forEachColumn f q = .ok ()) ∧
      ∀ q ∈ p.inputs, forEachColumn f q = .ok () := by
  cases p <;> simp [forEachColumn, andThen_ok_iff, columnsOfExpr_ok, columnsOfExprs_ok, columnsOfInputs_ok,
    LogicalPlan.expressions, LogicalPlan.inputs]

/-- **The walk reaches every column**: it succeeds exactly when `f` does on every column the plan
reads, however deep in subqueries. -/
theorem forEachColumn_ok {p} : forEachColumn f p = .ok () ↔ ∀ c, Reads c p → f c = .ok () := by
  refine LogicalPlan.induct ?_ p
  intro p hi hex
  rw [forEachColumn_ok_step]
  constructor
  · rintro ⟨hes, his⟩ c hc
    rcases reads_iff.mp hc with ⟨e, he, hc | ⟨q, hq, hc⟩⟩ | ⟨q, hq, hc⟩
    · exact (hes e he).1 c hc
    · exact (hex e he q hq).mp ((hes e he).2 q hq) c hc
    · exact (hi q hq).mp (his q hq) c hc
  · intro h
    refine ⟨fun e he => ⟨fun c hc => ?_, fun q hq => ?_⟩, fun q hq => ?_⟩
    · exact h c (reads_iff.mpr (.inl ⟨e, he, .inl hc⟩))
    · exact (hex e he q hq).mpr fun c hc => h c (reads_iff.mpr (.inl ⟨e, he, .inr ⟨q, hq, hc⟩⟩))
    · exact (hi q hq).mpr fun c hc => h c (reads_iff.mpr (.inr ⟨q, hq, hc⟩))

end Walk

/-! ## Which queries are let through -/

namespace AccessDenyEnforcer

/-- A denial for the session is on the table itself. -/
def DeniesTable (E : AccessDenyEnforcer) (id : Identity) (t : TableReference) : Prop :=
  ∃ d ∈ E.denials, d.appliesTo id ∧ d.column = none ∧ d.table ∈ matchCandidates t

/-- A denial for the session is on the column as it is written, which must be qualified. -/
def DeniesColumn (E : AccessDenyEnforcer) (id : Identity) (c : Column) : Prop :=
  ∃ d ∈ E.denials, d.appliesTo id ∧ d.column = some c.name ∧ ∃ relation, c.relation = some relation ∧
    d.table ∈ matchCandidates relation

theorem tableMatches_iff {denial reference} : tableMatches denial reference ↔ denial ∈ matchCandidates reference := by
  simp [tableMatches]

variable {E : AccessDenyEnforcer} {id : Identity}

theorem checkScan_ok {t} :
    checkScan (E.denials.filter fun d => d.appliesTo id) t = .ok () ↔ ¬ E.DeniesTable id t := by
  unfold checkScan DeniesTable
  split
  next d hd =>
    obtain ⟨hd', hm⟩ := And.intro (find?_some hd) (mem_of_find?_eq_some hd)
    simp only [Bool.and_eq_true, Option.isNone_iff_eq_none, tableMatches_iff, mem_filter] at hd' hm
    simp only [reduceCtorEq, false_iff, not_not]
    exact ⟨d, hm.1, hm.2, hd'.1, hd'.2⟩
  next hn =>
    simp only [find?_eq_none, mem_filter, Bool.and_eq_true, Option.isNone_iff_eq_none, tableMatches_iff]
      at hn
    simp only [true_iff]
    rintro ⟨d, hd, ha, hc, ht⟩
    exact hn d ⟨hd, ha⟩ ⟨hc, ht⟩

theorem checkColumn_ok {c} :
    checkColumn (E.denials.filter fun d => d.appliesTo id) c = .ok () ↔ ¬ E.DeniesColumn id c := by
  unfold checkColumn DeniesColumn
  split
  next hre => simp [hre]
  next relation hre =>
    split
    next d hd =>
      obtain ⟨hd', hm⟩ := And.intro (find?_some hd) (mem_of_find?_eq_some hd)
      simp only [Bool.and_eq_true, beq_iff_eq, tableMatches_iff, mem_filter] at hd' hm
      simp only [reduceCtorEq, false_iff, not_not]
      exact ⟨d, hm.1, hm.2, hd'.1, relation, hre, hd'.2⟩
    next hn =>
      simp only [find?_eq_none, mem_filter, Bool.and_eq_true, beq_iff_eq, tableMatches_iff] at hn
      simp only [true_iff]
      rintro ⟨d, hd, ha, hc, r, hr, ht⟩
      obtain rfl : relation = r := by simpa [hre] using hr
      exact hn d ⟨hd, ha⟩ ⟨hc, ht⟩

/-- **What access denial lets through**: the queries that neither scan a denied table nor name a denied
column, and those as they are. -/
theorem rewrite_ok_iff {plan r} : E.rewrite plan id = .ok r ↔
    r = .no plan ∧ (∀ t, Scanned t plan → ¬ E.DeniesTable id t) ∧ ∀ c, Reads c plan → ¬ E.DeniesColumn id c := by
  unfold rewrite
  simp only
  split
  next he =>
    have hno : ∀ d ∈ E.denials, ¬ d.appliesTo id := fun d hd ha => by
      have hd' : d ∈ E.denials.filter fun d => d.appliesTo id := mem_filter.mpr ⟨hd, ha⟩
      rcases Bool.or_eq_true_iff.mp he with h | h
      · rw [isEmpty_iff.mp h] at hd
        cases hd
      · rw [isEmpty_iff.mp h] at hd'
        cases hd'
    simp only [ok.injEq]
    constructor
    · rintro rfl
      exact ⟨rfl, fun t _ ⟨d, hd, ha, _⟩ => hno d hd ha, fun c _ ⟨d, hd, ha, _⟩ => hno d hd ha⟩
    · exact fun h => h.1.symm
  next =>
    simp only [andThen_ok_iff, pure_ok_iff, denyColumnsIn, tryForEachTableScan_ok, forEachColumn_ok,
      checkScan_ok, checkColumn_ok]
    constructor
    · rintro ⟨ht, hc, rfl⟩
      exact ⟨rfl, ht, hc⟩
    · rintro ⟨rfl, ht, hc⟩
      exact ⟨ht, hc, rfl⟩

/-- Denials add up, and so do groups: a query passes two lists together if it passes each. No denial and no group lifts
another denial. -/
theorem denials_add_up (ds ds' : List AccessDenial) (gs gs' : List String) (id : Identity) (plan : LogicalPlan) (r) :
    let passes ds gs := rewrite ⟨ds⟩ plan { id with orgGroups := gs } = .ok r
    passes (ds ++ ds') (gs ++ gs') ↔ passes ds gs ∧ passes ds gs' ∧ passes ds' gs ∧ passes ds' gs' := by
  have ha : ∀ d : AccessDenial, d.appliesTo { id with orgGroups := gs ++ gs' } ↔
      d.appliesTo { id with orgGroups := gs } ∨ d.appliesTo { id with orgGroups := gs' } := by
    intro d
    simp only [AccessDenial.appliesTo, any_append, Bool.or_eq_true, any_eq_true, and_or_left, exists_or]
    exact or_or_distrib_left
  simp only [rewrite_ok_iff, DeniesTable, DeniesColumn, ha, mem_append, or_and_right, and_or_left, exists_or, not_or,
    imp_and, forall_and]
  tauto

end AccessDenyEnforcer

end Dataglot
