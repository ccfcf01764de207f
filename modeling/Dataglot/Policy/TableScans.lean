/-
The walk every plan-time check runs on (`try_for_each_table_scan` in `lib.rs`):
it visits the scans of a plan and, through the expressions of each node, those of
every subquery plan embedded in them, and stops at the first error.

`Scanned` says which scans a plan has without saying how they are found; the
walk visits those and no others.
-/
import Dataglot.Policy.Rule

namespace Dataglot
open DataFusion

mutual

/-- `try_for_each_table_scan`: `LogicalPlan::apply` visits a node before its inputs, and at each node
`Expr::apply` looks for subqueries in the node's expressions. -/
def tryForEachTableScan {ε : Type} (f : TableReference → Except ε Unit) : LogicalPlan → Except ε Unit
  | .tableScan t _ filters _ => do f t; visitExprs f filters
  | .filter predicate input => do visitExpr f predicate; tryForEachTableScan f input
  | .projection expr input _ => do visitExprs f expr; tryForEachTableScan f input
  | .subqueryAlias _ input => tryForEachTableScan f input
  | .node _ _ exprs inputs _ => do visitExprs f exprs; visitInputs f inputs

def visitInputs {ε : Type} (f : TableReference → Except ε Unit) : List LogicalPlan → Except ε Unit
  | [] => .ok ()
  | p :: ps => do tryForEachTableScan f p; visitInputs f ps

-- A subquery's plan is walked when the expression itself is visited, so before the child of an
-- `IN` or of a set comparison.
def visitExpr {ε : Type} (f : TableReference → Except ε Unit) : Expr → Except ε Unit
  | .scalarSubquery q _ => tryForEachTableScan f q
  | .inSubquery e q _ _ => do tryForEachTableScan f q; visitExpr f e
  | .setComparison e q _ _ _ => do tryForEachTableScan f q; visitExpr f e
  | .existsSubquery q _ _ => tryForEachTableScan f q
  | .aliasExpr e _ _ => visitExpr f e
  | .op _ args => visitExprs f args
  | .column _ => .ok ()
  | .outerReferenceColumn _ => .ok ()
  | .literal _ => .ok ()

def visitExprs {ε : Type} (f : TableReference → Except ε Unit) : List Expr → Except ε Unit
  | [] => .ok ()
  | e :: es => do visitExpr f e; visitExprs f es

end

/-! ## The scans of a plan -/

/-- A scan of `t` stands somewhere in the plan, in its main tree or in a subquery at any depth. -/
def Scanned (t : TableReference) (p : LogicalPlan) : Prop :=
  ∃ projection filters fetch, (LogicalPlan.tableScan t projection filters fetch).Within p

mutual

/-- The scanned tables in the order of the walk. -/
def scans : LogicalPlan → List TableReference
  | .tableScan t _ filters _ => t :: scansExprs filters
  | .filter predicate input => scansExpr predicate ++ scans input
  | .projection expr input _ => scansExprs expr ++ scans input
  | .subqueryAlias _ input => scans input
  | .node _ _ exprs inputs _ => scansExprs exprs ++ scansInputs inputs

def scansInputs : List LogicalPlan → List TableReference
  | [] => []
  | p :: ps => scans p ++ scansInputs ps

def scansExpr : Expr → List TableReference
  | .scalarSubquery q _ => scans q
  | .inSubquery e q _ _ => scans q ++ scansExpr e
  | .setComparison e q _ _ _ => scans q ++ scansExpr e
  | .existsSubquery q _ _ => scans q
  | .aliasExpr e _ _ => scansExpr e
  | .op _ args => scansExprs args
  | .column _ => []
  | .outerReferenceColumn _ => []
  | .literal _ => []

def scansExprs : List Expr → List TableReference
  | [] => []
  | e :: es => scansExpr e ++ scansExprs es

end

variable {t : TableReference} {p : LogicalPlan}

theorem mem_scansInputs (ps) : t ∈ scansInputs ps ↔ ∃ p ∈ ps, t ∈ scans p := by
  induction ps with
  | nil => simp [scansInputs]
  | cons p ps ih => simp [scansInputs, ih]

mutual

theorem mem_scansExpr {t} : ∀ e, t ∈ scansExpr e ↔ ∃ q, e.Embeds q ∧ t ∈ scans q
  | .scalarSubquery p _ => by simp [scansExpr]
  | .existsSubquery p _ _ => by simp [scansExpr]
  | .inSubquery e p _ _ => by simp [scansExpr, mem_scansExpr e, or_and_right, exists_or]
  | .setComparison e p _ _ _ => by simp [scansExpr, mem_scansExpr e, or_and_right, exists_or]
  | .aliasExpr e _ _ => by simp [scansExpr, mem_scansExpr e]
  | .op _ args => by
    simp only [scansExpr, mem_scansExprs args, Expr.embeds_op]
    exact ⟨fun ⟨e, he, q, hq, ht⟩ => ⟨q, ⟨e, he, hq⟩, ht⟩, fun ⟨q, ⟨e, he, hq⟩, ht⟩ => ⟨e, he, q, hq, ht⟩⟩
  | .column _ | .outerReferenceColumn _ | .literal _ => by simp [scansExpr]

theorem mem_scansExprs {t} : ∀ es, t ∈ scansExprs es ↔ ∃ e ∈ es, ∃ q, e.Embeds q ∧ t ∈ scans q
  | [] => by simp [scansExprs]
  | e :: es => by simp [scansExprs, mem_scansExpr e, mem_scansExprs es]

end

theorem mem_scans : t ∈ scans p ↔ (∃ projection filters fetch, p = .tableScan t projection filters fetch) ∨
      (∃ e ∈ p.expressions, ∃ q, e.Embeds q ∧ t ∈ scans q) ∨ ∃ q ∈ p.inputs, t ∈ scans q := by
  cases p <;> simp [scans, LogicalPlan.expressions, LogicalPlan.inputs, mem_scansExpr, mem_scansExprs,
    mem_scansInputs, eq_comm]

theorem scanned_iff : Scanned t p ↔ (∃ projection filters fetch, p = .tableScan t projection filters fetch) ∨
      (∃ e ∈ p.expressions, ∃ q, e.Embeds q ∧ Scanned t q) ∨ ∃ q ∈ p.inputs, Scanned t q := by
  constructor
  · rintro ⟨projection, filters, fetch, h⟩
    cases h with
    | refl => exact .inl ⟨_, _, _, rfl⟩
    | input hi hw => exact .inr (.inr ⟨_, hi, _, _, _, hw⟩)
    | subquery he hq hw => exact .inr (.inl ⟨_, he, _, hq, _, _, _, hw⟩)
  · rintro (⟨projection, filters, fetch, rfl⟩ | ⟨e, he, q, hq, projection, filters, fetch, hw⟩ |
      ⟨q, hq, projection, filters, fetch, hw⟩)
    · exact ⟨_, _, _, .refl⟩
    · exact ⟨_, _, _, .subquery he hq hw⟩
    · exact ⟨_, _, _, .input hq hw⟩

theorem mem_scans_iff_scanned : t ∈ scans p ↔ Scanned t p := by
  refine LogicalPlan.induct ?_ p
  intro p hi hex
  rw [mem_scans, scanned_iff]
  refine or_congr Iff.rfl (or_congr ?_ ?_)
  · exact exists_congr fun e => and_congr_right fun he => exists_congr fun q =>
      and_congr_right fun hq => hex e he q hq
  · exact exists_congr fun q => and_congr_right fun hq => hi q hq

/-! ## The walk -/

section Walk

variable {ε : Type} (f : TableReference → Except ε Unit)

mutual

theorem tryForEachTableScan_eq : ∀ p, tryForEachTableScan f p = (scans p).forM f
  | .tableScan t _ filters _ => by simp [tryForEachTableScan, scans, visitExprs_eq filters]
  | .filter predicate input => by
    simp [tryForEachTableScan, scans, visitExpr_eq predicate, tryForEachTableScan_eq input]
  | .projection expr input _ => by
    simp [tryForEachTableScan, scans, visitExprs_eq expr, tryForEachTableScan_eq input]
  | .subqueryAlias _ input => by simp [tryForEachTableScan, scans, tryForEachTableScan_eq input]
  | .node _ _ exprs inputs _ => by
    simp [tryForEachTableScan, scans, visitExprs_eq exprs, visitInputs_eq inputs]

theorem visitInputs_eq : ∀ ps, visitInputs f ps = (scansInputs ps).forM f
  | [] => rfl
  | p :: ps => by simp [visitInputs, scansInputs, tryForEachTableScan_eq p, visitInputs_eq ps]

theorem visitExpr_eq : ∀ e, visitExpr f e = (scansExpr e).forM f
  | .scalarSubquery q _ => by simp [visitExpr, scansExpr, tryForEachTableScan_eq q]
  | .existsSubquery q _ _ => by simp [visitExpr, scansExpr, tryForEachTableScan_eq q]
  | .inSubquery e q _ _ => by simp [visitExpr, scansExpr, tryForEachTableScan_eq q, visitExpr_eq e]
  | .setComparison e q _ _ _ => by simp [visitExpr, scansExpr, tryForEachTableScan_eq q, visitExpr_eq e]
  | .aliasExpr e _ _ => by simp [visitExpr, scansExpr, visitExpr_eq e]
  | .op _ args => by simp [visitExpr, scansExpr, visitExprs_eq args]
  | .column _ | .outerReferenceColumn _ | .literal _ => by simp [visitExpr, scansExpr]; rfl

theorem visitExprs_eq : ∀ es, visitExprs f es = (scansExprs es).forM f
  | [] => rfl
  | e :: es => by simp [visitExprs, scansExprs, visitExpr_eq e, visitExprs_eq es]

end

/-- **The walk reaches every scan**: it succeeds exactly when `f` does on every scan of the plan,
however deep in subqueries. -/
theorem tryForEachTableScan_ok {p} : tryForEachTableScan f p = .ok () ↔ ∀ t, Scanned t p → f t = .ok () := by
  rw [tryForEachTableScan_eq, Except.forM_ok_iff]
  simp only [mem_scans_iff_scanned]

end Walk

end Dataglot
