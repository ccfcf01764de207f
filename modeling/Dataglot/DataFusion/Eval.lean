/-
What a plan computes, over given table contents. A row lists its fields with
their values; a column reads the first field it refers to, as `DFSchema` finds
it. An expression is evaluated in a row and, for a correlated subquery, in the
rows around it. Operators, aggregation, sorting, joining and the rest are
parameters (`Interp`): only what each of them may look at is fixed, so a result
about `evalPlan` holds whatever they are.

`keep` decides, scan by scan, which rows of a table the plan is given at all.
The ordinary meaning is `keepAll`; a plan under another `keep` is what the same
query means over tables that are restricted before it runs.
-/
import Dataglot.DataFusion.Plan

namespace DataFusion
open Expr List

/-! ## Rows -/

abbrev Row (V : Type) := List (Column × V)

/-- The contents of every table, each row as names with values. -/
abbrev Database (V : Type) := TableReference → List (List (String × V))

/-- Whether a column reference finds a field: the names are equal, and a qualified reference wants a
field qualified alike. -/
def Column.refersTo (c field : Column) : Bool :=
  c.name == field.name &&
    match c.relation, field.relation with
    | some q, some r => q.resolvedEq r
    | some _, none => false
    | none, _ => true

namespace Row

variable {V : Type}

/-- The value a column reads, `null` if no field answers. -/
def get (null : V) (r : Row V) (c : Column) : V :=
  ((r.find? fun f => c.refersTo f.1).map (·.2)).getD null

/-- A row under an alias: the alias takes the place of every qualifier. -/
def aliased (name : TableReference) (r : Row V) : Row V :=
  r.map fun f => (⟨some name, f.1.name⟩, f.2)

def values (r : Row V) : List V := r.map (·.2)

end Row

/-! ## Operators -/

/-- How a node without a meaning of its own here uses its expressions and inputs. -/
inductive Shape
  /-- the output is computed from the values of the expressions alone -/
  | emit
  /-- input rows, chosen by the values of the expressions, with columns added -/
  | pass
  /-- pairs of input rows, chosen by the values of the expressions on them -/
  | merge
  /-- anything -/
  | whole
  deriving DecidableEq, Repr

def NodeKind.shape : NodeKind → Shape
  | aggregate | values | distinctOn => .emit
  | sort | window | limit | repartition => .pass
  | join => .merge
  | union | emptyRelation | subquery | statement | explain | analyze | extension | distinctAll
  | dml | ddl | copy | describeTable | unnest | recursiveQuery => .whole

/-- The meaning of operators and nodes over values `V`. -/
structure Interp (V : Type) where
  null : V
  literal : ScalarValue → V
  op : String → List V → V
  isTrue : V → Bool
  scalarSubquery : List (List V) → V
  inSubquery : Bool → V → List (List V) → V
  setComparison : String → String → V → List (List V) → V
  /-- an existence test sees whether there is a row, not what is in it -/
  existsSubquery : Bool → Bool → V
  /-- from the values of the expressions on each input row to rows of values, each named by the
  position of its column in the schema -/
  emit : NodeKind → String → List (List V) → List (List (Nat × V))
  /-- from the values of the expressions on each input row to input rows by position, with the values
  of the columns added -/
  pass : NodeKind → String → List (List V) → List (Nat × List V)
  /-- from the numbers of rows and the values of the expressions on each pair to pairs by position -/
  merge : String → Nat → Nat → (Nat → Nat → List V) → List (Option Nat × Option Nat)
  whole : NodeKind → String → (Row V → List V) → List (List (Row V)) → List (Row V)

/-- Which rows of a scan, possibly aliased, are there for a query; the outer row comes first. -/
abbrev Keep (V : Type) := Option TableReference → TableReference → Row V → Row V → Bool

def keepAll {V : Type} : Keep V := fun _ _ _ _ => true

section Eval

variable {V : Type} (I : Interp V)

def Interp.emitRows (kind : NodeKind) (detail : String) (schema : List Column) (values : Row V → List V)
    (rows : List (Row V)) : List (Row V) :=
  (I.emit kind detail (rows.map values)).map fun out =>
    out.filterMap fun (i, v) => schema[i]?.map fun c => (c, v)

def Interp.passRows (kind : NodeKind) (detail : String) (schema : List Column) (values : Row V → List V)
    (rows : List (Row V)) : List (Row V) :=
  (I.pass kind detail (rows.map values)).filterMap fun (i, added) => rows[i]?.map fun r => r ++ schema.zip added

def Interp.mergeRows (detail : String) (values : Row V → List V) (left right : List (Row V)) : List (Row V) :=
  let pair (i j : Option Nat) : Row V :=
    (i.bind fun i => left[i]?).getD [] ++ (j.bind fun j => right[j]?).getD []
  (I.merge detail left.length right.length fun i j => values (pair (some i) (some j))).map fun (i, j) => pair i j

/-- A node from the values of its expressions and the rows of its inputs. A node without inputs
evaluates its expressions once, on no row. -/
def Interp.nodeRows (kind : NodeKind) (detail : String) (schema : List Column) (values : Row V → List V)
    (inputs : List (List (Row V))) : List (Row V) :=
  match kind.shape, inputs with
  | .emit, [] => I.emitRows kind detail schema values [[]]
  | .emit, [rows] => I.emitRows kind detail schema values rows
  | .pass, [rows] => I.passRows kind detail schema values rows
  | .merge, [left, right] => I.mergeRows detail values left right
  | _, _ => I.whole kind detail values inputs

/-- The rows a scan reads: the table's, qualified, those its filters hold on, cut to its projection
and its fetch. -/
def scanRows (db : Database V) (t : TableReference) (projection : Option (List Nat)) (fetch : Option Nat)
    (passes : Row V → Bool) : List (Row V) :=
  let rows : List (Row V) := (db t).map fun r => r.map fun f => (⟨some t, f.1⟩, f.2)
  let rows := (rows.filter passes).map fun r =>
    match projection with
    | none => r
    | some is => is.filterMap fun i => r[i]?
  match fetch with
  | none => rows
  | some n => rows.take n

variable (db : Database V) (keep : Keep V)

mutual

/-- The rows of a plan, `outer` being the row of the query around it. -/
def evalPlan (outer : Row V) : LogicalPlan → List (Row V)
  | .tableScan t projection filters fetch =>
    (scanRows db t projection fetch fun r => (evalExprs outer r filters).all I.isTrue).filter (keep none t outer)
  | .subqueryAlias name (.tableScan t projection filters fetch) =>
    ((scanRows db t projection fetch fun r => (evalExprs outer r filters).all I.isTrue).map
      (Row.aliased name)).filter (keep (some name) t outer)
  | .subqueryAlias name input => (evalPlan outer input).map (Row.aliased name)
  | .filter predicate input =>
    (evalPlan outer input).filter fun r => I.isTrue (evalExpr outer r predicate)
  | .projection expr input schema => (evalPlan outer input).map fun r => schema.zip (evalExprs outer r expr)
  | .node kind detail exprs inputs schema =>
    I.nodeRows kind detail schema (fun r => evalExprs outer r exprs) (evalPlans outer inputs)

def evalPlans (outer : Row V) : List LogicalPlan → List (List (Row V))
  | [] => []
  | p :: ps => evalPlan outer p :: evalPlans outer ps

/-- The value of an expression in a row. A subquery runs once per row, with the row in front of the
rows around it. -/
def evalExpr (outer row : Row V) : Expr → V
  | .column c => row.get I.null c
  | .outerReferenceColumn c => outer.get I.null c
  | .literal v => I.literal v
  | .aliasExpr e _ _ => evalExpr outer row e
  | .op h args => I.op h (evalExprs outer row args)
  | .scalarSubquery q _ => I.scalarSubquery ((evalPlan (row ++ outer) q).map Row.values)
  | .inSubquery e q _ neg =>
    I.inSubquery neg (evalExpr outer row e) ((evalPlan (row ++ outer) q).map Row.values)
  | .setComparison e q _ c k =>
    I.setComparison c k (evalExpr outer row e) ((evalPlan (row ++ outer) q).map Row.values)
  | .existsSubquery q _ neg => I.existsSubquery neg !(evalPlan (row ++ outer) q).isEmpty

def evalExprs (outer row : Row V) : List Expr → List V
  | [] => []
  | e :: es => evalExpr outer row e :: evalExprs outer row es

end

variable {I db keep}

/-! ## Reading the evaluator back -/

theorem evalPlan_subqueryAlias {outer name input}
    (h : ∀ t projection filters fetch, input ≠ .tableScan t projection filters fetch) :
    evalPlan I db keep outer (.subqueryAlias name input) =
      (evalPlan I db keep outer input).map (Row.aliased name) := by
  cases input <;> first | rfl | exact absurd rfl (h _ _ _ _)

theorem filter_keepAll (name t outer) (rows : List (Row V)) :
    rows.filter (keepAll name t outer) = rows := by
  simp [keepAll]

theorem evalPlans_eq_map (outer ps) : evalPlans I db keep outer ps = ps.map (evalPlan I db keep outer) := by
  induction ps with
  | nil => rfl
  | cons p ps ih => rw [evalPlans, ih, map_cons]

theorem evalExprs_eq_map (outer row es) :
    evalExprs I db keep outer row es = es.map (evalExpr I db keep outer row) := by
  induction es with
  | nil => rfl
  | cons e es ih => rw [evalExprs, ih, map_cons]

theorem evalExpr_unaliasNested (outer row) : ∀ e,
    evalExpr I db keep outer row e.unaliasNested = evalExpr I db keep outer row e
  | .aliasExpr e _ _ => by rw [unaliasNested, evalExpr_unaliasNested outer row e, evalExpr]
  | .op _ args => by
    simp only [unaliasNested, evalExpr, evalExprs_eq_map, unaliasNestedList_eq_map, map_map]
    exact congrArg _ (map_congr_left fun e _ => evalExpr_unaliasNested outer row e)
  | .column _ | .outerReferenceColumn _ | .literal _ | .scalarSubquery _ _ | .inSubquery _ _ _ _
  | .setComparison _ _ _ _ _ | .existsSubquery _ _ _ => rfl

section MapSubqueries

variable {db' : Database V} {keep' : Keep V} {f : LogicalPlan → LogicalPlan}

/-- An expression means the same with its subqueries replaced by plans that mean the same. The two
sides may be over different tables. -/
theorem evalExpr_mapSubqueries : ∀ {e},
    (∀ q, e.Embeds q → ∀ outer, evalPlan I db keep outer (f q) = evalPlan I db' keep' outer q) →
    ∀ outer row, evalExpr I db keep outer row (e.mapSubqueries f) = evalExpr I db' keep' outer row e
  | .scalarSubquery q _, h, outer, row | .existsSubquery q _ _, h, outer, row => by
    simp only [mapSubqueries, evalExpr, h q (by simp)]
  | .inSubquery e q _ _, h, outer, row | .setComparison e q _ _ _, h, outer, row => by
    have he := evalExpr_mapSubqueries (e := e) (fun q' hq' => h q' (by simp [hq'])) outer row
    simp only [mapSubqueries, evalExpr, he, h q (by simp)]
  | .aliasExpr e _ _, h, outer, row => by
    simp only [mapSubqueries, evalExpr]
    exact evalExpr_mapSubqueries (fun q hq => h q (by simpa using hq)) outer row
  | .op _ args, h, outer, row => by
    simp only [mapSubqueries, evalExpr, evalExprs_eq_map, mapSubqueriesList_eq_map, map_map]
    refine congrArg _ (map_congr_left fun e he => ?_)
    exact evalExpr_mapSubqueries (fun q hq => h q (embeds_op.mpr ⟨e, he, hq⟩)) outer row
  | .column _, _, _, _ | .outerReferenceColumn _, _, _, _ | .literal _, _, _, _ => by
    simp only [mapSubqueries, evalExpr]

theorem evalExprs_mapSubqueries {es}
    (h : ∀ e ∈ es, ∀ q, e.Embeds q → ∀ outer, evalPlan I db keep outer (f q) = evalPlan I db' keep' outer q)
    (outer row) :
    evalExprs I db keep outer row (Expr.mapSubqueriesList f es) = evalExprs I db' keep' outer row es := by
  rw [mapSubqueriesList_eq_map, evalExprs_eq_map, evalExprs_eq_map, map_map]
  exact map_congr_left fun e he => evalExpr_mapSubqueries (h e he) outer row

end MapSubqueries

end Eval

end DataFusion
