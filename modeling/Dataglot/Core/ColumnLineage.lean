/-
Column lineage (`lineage.rs`): for each output column of a plan, the table columns that
contribute to it, and how. The plan is followed from the scans up, column by column.

A contribution keeps the most derived transformation of all the ways by which a table
column gets to the output column, so one way through an aggregate stands for all.
-/
import Mathlib
import Dataglot.Core.LineageReach
import Dataglot.DataFusion.Eval

namespace Dataglot
open DataFusion

/-! ## Schemas -/

inductive JoinType
  | inner | left | right | full | leftSemi | rightSemi | leftAnti | rightAnti | leftMark | rightMark
  deriving DecidableEq, Repr

/-- What is read of tables and of a node's other data, which a plan carries as text. -/
structure PlanData where
  /-- the columns of a table -/
  columnsOf : TableReference → List String
  joinType : (detail : String) → JoinType
  /-- how many of the expressions of an aggregate are its group expressions -/
  groupExprs : (detail : String) → Nat
  /-- the operator is a `GroupingSet`; its arguments are its distinct expressions -/
  isGroupingSet : (head : String) → Bool

/-- The side or sides of a join that its output has. -/
def JoinType.columns {α : Type} (type : JoinType) (left right : List α) (leftMark rightMark : α) : List α :=
  match type with
  | .inner | .left | .right | .full => left ++ right
  | .leftSemi | .leftAnti => left
  | .rightSemi | .rightAnti => right
  | .leftMark => left ++ [leftMark]
  | .rightMark => right ++ [rightMark]

/-- `mark_field`: the mark is qualified if all columns of the side it stands for are, alike. -/
def markField (side : List Column) : Column :=
  match (side.filterMap (·.relation)).destutter (· ≠ ·) with
  | [relation] => ⟨some relation, "mark"⟩
  | _ => ⟨none, "mark"⟩

/-- The columns of a table that a scan has. -/
def projectedColumns (columns : List String) : Option (List Nat) → List String
  | none => columns
  | some is => is.filterMap fun i => columns[i]?

namespace PlanData

variable (D : PlanData)

def nodeSchema (kind : NodeKind) (detail : String) (schema : List Column) (inputs : List (List Column)) : List Column :=
  match kind, inputs with
  | .join, [left, right] => (D.joinType detail).columns left right (markField right) (markField left)
  | .sort, [input] | .limit, [input] | .repartition, [input] | .distinctAll, [input] | .subquery, [input] => input
  | .window, [input] => input ++ schema
  | _, _ => schema

mutual

/-- `LogicalPlan::schema`. -/
def planSchema : LogicalPlan → List Column
  | .tableScan t projection _ _ => (projectedColumns (D.columnsOf t) projection).map fun n => ⟨some t, n⟩
  | .filter _ input => planSchema input
  | .projection _ _ schema => schema
  | .subqueryAlias name input => (planSchema input).map fun c => ⟨some name, c.name⟩
  | .node kind detail _ inputs schema => D.nodeSchema kind detail schema (planSchemas inputs)

def planSchemas : List LogicalPlan → List (List Column)
  | [] => []
  | p :: ps => planSchema p :: planSchemas ps

end

end PlanData

/-! ## Contributions -/

def datasetOfWithDefaults (r : TableReference) (defaultCatalog defaultSchema : String) : DatasetRef :=
  ⟨r.catalog.getD defaultCatalog, r.schema.getD defaultSchema, r.table⟩

/-- `dataset_of` of the analyzer. -/
def scanDataset (r : TableReference) : DatasetRef := datasetOfWithDefaults r "default" "public"

/-- The contribution that is there takes up the transformation of another one of its field. -/
def InputFieldContribution.combine (existing c : InputFieldContribution) : InputFieldContribution :=
  ⟨existing.field, existing.transform.combine c.transform⟩

theorem InputFieldContribution.field_combine (existing c : InputFieldContribution) :
    (existing.combine c).field = existing.field := rfl

def mergeContribution (acc : List InputFieldContribution) (c : InputFieldContribution) : List InputFieldContribution :=
  KeyedList.merge InputFieldContribution.field InputFieldContribution.combine c acc

def stripAlias : Expr → Expr
  | .aliasExpr e _ _ => stripAlias e
  | e => e

/-- The expression is a column, whatever name it is given. -/
def isBare (e : Expr) : Bool :=
  match stripAlias e with
  | .column _ => true
  | _ => false

/-- `column_refs`. The set is iterated over in some order. -/
def columnRefs (e : Expr) : List Column := e.columns.dedup

def indexOfColumn (schema : List Column) (c : Column) : Option Nat := schema.findIdx? fun f => c.refersTo f

/-- The column of the input that a reference is to: if none has its qualifier, the only one of its name. -/
def inputColumn (schema : List Column) (c : Column) : Option Nat :=
  match indexOfColumn schema c with
  | some idx => some idx
  | none =>
    match (List.range schema.length).filter fun i => (schema[i]?).any fun f => f.name == c.name with
    | [i] => some i
    | _ => none

def exprContributions (expr : Expr) (inputSchema : List Column) (inputMap : List (List InputFieldContribution))
    (extra : TransformationType) : List InputFieldContribution :=
  (columnRefs expr).foldl (fun out col =>
    match inputColumn inputSchema col with
    | none => out
    | some idx =>
      ((inputMap[idx]?).getD []).foldl (fun out contrib =>
        let transform := if isBare expr then contrib.transform else contrib.transform.combine extra
        mergeContribution out ⟨contrib.field, transform⟩) out) []

def unknownLineage (width : Nat) : List (List InputFieldContribution) := List.replicate width []

/-- `aggregate_lineage`; the first `groups` of the expressions are the group expressions. -/
def aggregateLineage (groups : Nat) (exprs : List Expr) (schema inputSchema : List Column)
    (inputMap : List (List InputFieldContribution)) : List (List InputFieldContribution) :=
  if schema.length ≠ exprs.length then unknownLineage schema.length
  else
    (exprs.take groups).map (exprContributions · inputSchema inputMap .transformation) ++
      (exprs.drop groups).map (exprContributions · inputSchema inputMap .aggregation)

/-- The contributions of one branch of a union join those so far, column by column. -/
def mergeBranch : List (List InputFieldContribution) → List (List InputFieldContribution) →
    List (List InputFieldContribution)
  | [], _ => []
  | out, [] => out
  | o :: out, contribs :: branch => contribs.foldl mergeContribution o :: mergeBranch out branch

/-- A node of one input hands its columns on, if there are as many. -/
def passLineage (child : List (List InputFieldContribution)) (width : Nat) : List (List InputFieldContribution) :=
  if child.length = width then child else unknownLineage width

namespace PlanData

variable (D : PlanData)

/-- The arms of `lineage_map` for an aggregate, a join, a union and any other node. -/
def nodeLineage (kind : NodeKind) (detail : String) (exprs : List Expr) (schema : List Column)
    (schemas : List (List Column)) (maps : List (List (List InputFieldContribution))) :
    List (List InputFieldContribution) :=
  match kind with
  | .aggregate =>
    match schemas, maps with
    | [inputSchema], [inputMap] => aggregateLineage (D.groupExprs detail) exprs schema inputSchema inputMap
    | _, _ => unknownLineage schema.length
  | .join =>
    match maps with
    | [left, right] => (D.joinType detail).columns left right [] []
    | _ => unknownLineage schema.length
  | .union => maps.foldl mergeBranch (unknownLineage schema.length)
  | kind =>
    let width := (D.nodeSchema kind detail schema schemas).length
    match maps with
    | [child] => passLineage child width
    | _ => unknownLineage width

mutual

/-- `lineage_map`. No step of it fails. -/
def lineageMap : LogicalPlan → List (List InputFieldContribution)
  | .tableScan t projection _ _ =>
    (projectedColumns (D.columnsOf t) projection).map fun n => [⟨⟨scanDataset t, n⟩, .identity⟩]
  | .projection expr input _ => expr.map (exprContributions · (D.planSchema input) (lineageMap input) .transformation)
  | .subqueryAlias _ input => lineageMap input
  | .filter _ input => passLineage (lineageMap input) (D.planSchema input).length
  | .node kind detail exprs inputs schema =>
    D.nodeLineage kind detail exprs schema (D.planSchemas inputs) (lineageMaps inputs)

def lineageMaps : List LogicalPlan → List (List (List InputFieldContribution))
  | [] => []
  | p :: ps => lineageMap p :: lineageMaps ps

end

def columnLineage (plan : LogicalPlan) : ColumnLineage :=
  ((D.planSchema plan).zip (D.lineageMap plan)).map fun (f, inputs) => ⟨f.name, inputs⟩

end PlanData

end Dataglot
