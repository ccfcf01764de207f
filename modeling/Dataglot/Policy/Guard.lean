/-
What row filtering is for. Given which tables are governed and by what
predicate, `guardPlan` is the plan with each governed scan under its filter and
the rest as it was. Over any tables, a guarded plan computes what the original
computes when the governed scans give nothing but the rows that satisfy their
predicates, and guarding it once more changes nothing.

A variant leaves the filters of a governed scan under an alias as they are, which
is what a walk that jumps over such a scan does; `JumpFree` says when that makes
no difference.
-/
import Dataglot.DataFusion.Eval
import Dataglot.Policy.RowFilter
import Dataglot.Policy.TableScans

namespace Dataglot
open DataFusion Expr List Option

/-! ## The guarded plan -/

/-- A scan under the filter of its predicate, if it has one. -/
def guardScan (predicate : Option Expr) (scan : LogicalPlan) : LogicalPlan :=
  match predicate with
  | some p => .filter p.unaliasNested scan
  | none => scan

section Guard

variable (gov : TableReference → Option Expr) (deep : Bool)

mutual

/-- The plan with every governed scan under its filter, an aliased one together with its alias.
Without `deep`, the filters of an aliased governed scan are left as they are. -/
def guardPlan : LogicalPlan → LogicalPlan
  | .tableScan t projection filters fetch =>
    guardScan (gov t) (.tableScan t projection (guardExprs filters) fetch)
  | .subqueryAlias name (.tableScan t projection filters fetch) =>
    guardScan ((gov t).map fun p => requalifyColumns p name) <| .subqueryAlias name <|
      .tableScan t projection (if deep || (gov t).isNone then guardExprs filters else filters) fetch
  | .subqueryAlias name input => .subqueryAlias name (guardPlan input)
  | .filter predicate input => .filter (guardExpr predicate) (guardPlan input)
  | .projection expr input schema => .projection (guardExprs expr) (guardPlan input) schema
  | .node kind detail exprs inputs schema => .node kind detail (guardExprs exprs) (guardPlans inputs) schema

def guardPlans : List LogicalPlan → List LogicalPlan
  | [] => []
  | p :: ps => guardPlan p :: guardPlans ps

def guardExpr : Expr → Expr
  | .scalarSubquery q o => .scalarSubquery (guardPlan q) o
  | .inSubquery e q o neg => .inSubquery (guardExpr e) (guardPlan q) o neg
  | .setComparison e q o c k => .setComparison (guardExpr e) (guardPlan q) o c k
  | .existsSubquery q o neg => .existsSubquery (guardPlan q) o neg
  | .aliasExpr e r n => .aliasExpr (guardExpr e) r n
  | .op h args => .op h (guardExprs args)
  | .column c => .column c
  | .outerReferenceColumn c => .outerReferenceColumn c
  | .literal v => .literal v

def guardExprs : List Expr → List Expr
  | [] => []
  | e :: es => guardExpr e :: guardExprs es

end

variable {gov deep}

mutual

theorem guardExpr_eq : ∀ e, guardExpr gov deep e = e.mapSubqueries (guardPlan gov deep)
  | .scalarSubquery _ _ | .existsSubquery _ _ _ => rfl
  | .inSubquery e _ _ _ => by rw [guardExpr, guardExpr_eq e, mapSubqueries]
  | .setComparison e _ _ _ _ => by rw [guardExpr, guardExpr_eq e, mapSubqueries]
  | .aliasExpr e _ _ => by rw [guardExpr, guardExpr_eq e, mapSubqueries]
  | .op _ args => by rw [guardExpr, guardExprs_eq args, mapSubqueries]
  | .column _ | .outerReferenceColumn _ | .literal _ => rfl

theorem guardExprs_eq : ∀ es, guardExprs gov deep es = mapSubqueriesList (guardPlan gov deep) es
  | [] => rfl
  | e :: es => by rw [guardExprs, guardExpr_eq e, guardExprs_eq es, mapSubqueriesList]

end

theorem guardPlans_eq (ps) : guardPlans gov deep ps = ps.map (guardPlan gov deep) := by
  induction ps with
  | nil => rfl
  | cons p ps ih => rw [guardPlans, ih, map_cons]

theorem length_guardExprs (es) : (guardExprs gov deep es).length = es.length := by
  rw [guardExprs_eq, mapSubqueriesList_eq_map, length_map]

section Scans

variable {t : TableReference} {projection : Option (List Nat)} {filters : List Expr} {fetch : Option Nat}

theorem guardPlan_tableScan : guardPlan gov deep (.tableScan t projection filters fetch) =
    guardScan (gov t) (.tableScan t projection (guardExprs gov deep filters) fetch) := rfl

theorem guardPlan_aliasedScan {name} :
    guardPlan gov deep (.subqueryAlias name (.tableScan t projection filters fetch)) =
      guardScan ((gov t).map fun p => requalifyColumns p name) (.subqueryAlias name (.tableScan t projection
        (if deep || (gov t).isNone then guardExprs gov deep filters else filters) fetch)) := rfl

end Scans

theorem guardPlan_subqueryAlias {name input}
    (h : ∀ t projection filters fetch, input ≠ .tableScan t projection filters fetch) :
    guardPlan gov deep (.subqueryAlias name input) = .subqueryAlias name (guardPlan gov deep input) := by
  cases input <;> first | rfl | exact absurd rfl (h _ _ _ _)

/-- The plan is a scan, possibly under an alias: the two forms a guard is put on. -/
inductive IsScan : LogicalPlan → Prop
  | bare (t projection filters fetch) : IsScan (.tableScan t projection filters fetch)
  | aliased (name t projection filters fetch) : IsScan (.subqueryAlias name (.tableScan t projection filters fetch))

variable {p : LogicalPlan}

theorem guardPlan_of_not_isScan (h : ¬ IsScan p) : guardPlan gov deep p =
      (p.withNewExpressions (guardExprs gov deep p.expressions)).withNewInputs (p.inputs.map (guardPlan gov deep)) := by
  cases p with
  | tableScan => exact absurd (.bare ..) h
  | filter predicate input => rfl
  | projection expr input schema => rfl
  | subqueryAlias name input =>
    cases input with
    | tableScan => exact absurd (.aliased ..) h
    | filter | projection | node | subqueryAlias => rfl
  | node kind detail exprs inputs schema => exact congrArg (LogicalPlan.node kind detail _ · schema) (guardPlans_eq inputs)

theorem expressions_guardPlan (h : ¬ IsScan p) :
    (guardPlan gov deep p).expressions = guardExprs gov deep p.expressions := by
  rw [guardPlan_of_not_isScan h, LogicalPlan.expressions_withNewInputs]
  exact LogicalPlan.expressions_withNewExpressions (length_guardExprs _)

theorem inputs_guardPlan (h : ¬ IsScan p) : (guardPlan gov deep p).inputs = p.inputs.map (guardPlan gov deep) := by
  rw [guardPlan_of_not_isScan h]
  exact LogicalPlan.inputs_withNewInputs (by rw [LogicalPlan.inputs_withNewExpressions, length_map])

theorem guardPlan_ne_tableScan (h : ∀ t projection filters fetch, p ≠ .tableScan t projection filters fetch) :
    ∀ t projection filters fetch, guardPlan gov deep p ≠ .tableScan t projection filters fetch := by
  intro t projection filters fetch
  cases p with
  | tableScan => exact absurd rfl (h _ _ _ _)
  | filter | projection | node => exact nofun
  | subqueryAlias name input =>
    cases input with
    | tableScan t' => cases ht : gov t' <;> simp [guardPlan_aliasedScan, guardScan, ht]
    | filter | projection | node | subqueryAlias => exact nofun

theorem not_isScan_guardPlan (h : ¬ IsScan p) : ¬ IsScan (guardPlan gov deep p) := by
  intro hs
  cases p with
  | tableScan => exact h (.bare ..)
  | filter | projection | node => nomatch hs
  | subqueryAlias name input =>
    have hi : ∀ t projection filters fetch, input ≠ .tableScan t projection filters fetch := by
      rintro t projection filters fetch rfl
      exact h (.aliased ..)
    rw [guardPlan_subqueryAlias hi] at hs
    generalize hg : guardPlan gov deep input = i at hs
    cases hs
    exact guardPlan_ne_tableScan hi _ _ _ _ hg

/-! ### Plans that need no guard -/

theorem guardExpr_eq_self_iff {e} : guardExpr gov deep e = e ↔ ∀ q, e.Embeds q → guardPlan gov deep q = q := by
  rw [guardExpr_eq]
  nth_rewrite 2 [← mapSubqueries_id e]
  exact mapSubqueries_eq_iff

theorem guardExprs_eq_self_iff {es} :
    guardExprs gov deep es = es ↔ ∀ e ∈ es, ∀ q, e.Embeds q → guardPlan gov deep q = q := by
  rw [guardExprs_eq]
  nth_rewrite 2 [← mapSubqueriesList_id es]
  exact mapSubqueriesList_eq_iff

theorem IsScan.ne_tableScan (h : ¬ IsScan p) (t projection filters fetch) :
    p ≠ .tableScan t projection filters fetch := by
  rintro rfl
  exact h (.bare ..)

theorem guardPlan_eq_self_step : guardPlan gov deep p = p ↔
    (∀ t projection filters fetch, p = .tableScan t projection filters fetch → gov t = none) ∧
    (∀ e ∈ p.expressions, ∀ q, e.Embeds q → guardPlan gov deep q = q) ∧ ∀ q ∈ p.inputs, guardPlan gov deep q = q := by
  by_cases hs : IsScan p
  · cases hs with
    | bare t projection filters fetch =>
      rw [guardPlan_tableScan]
      cases ht : gov t with
      | none =>
        simp only [guardScan, LogicalPlan.tableScan.injEq, true_and, and_true, guardExprs_eq_self_iff,
          LogicalPlan.expressions, LogicalPlan.inputs]
        refine ⟨fun h => ⟨?_, h, by simp⟩, fun h => h.2.1⟩
        rintro _ _ _ _ ⟨rfl, -⟩
        exact ht
      | some p =>
        simp only [guardScan, reduceCtorEq, false_iff]
        intro h
        rw [h.1 t projection filters fetch rfl] at ht
        cases ht
    | aliased name t projection filters fetch =>
      cases ht : gov t with
      | none => simp [guardPlan_aliasedScan, guardPlan_tableScan, guardScan, LogicalPlan.expressions, LogicalPlan.inputs, ht]
      | some p => simp [guardPlan_aliasedScan, guardPlan_tableScan, guardScan, LogicalPlan.inputs, ht]
  · have hm : p.inputs.map (guardPlan gov deep) = p.inputs ↔ ∀ q ∈ p.inputs, guardPlan gov deep q = q := by
      simpa using @map_inj_left _ _ p.inputs (guardPlan gov deep) id
    have hse := LogicalPlan.withNew_inj (@length_guardExprs gov deep p.expressions) rfl
      (length_map (guardPlan gov deep)) rfl
    rw [LogicalPlan.withNewExpressions_self, LogicalPlan.withNewInputs_self] at hse
    rw [guardPlan_of_not_isScan hs, hse, guardExprs_eq_self_iff, hm,
      and_iff_right fun t projection filters fetch h => absurd h (IsScan.ne_tableScan hs t projection filters fetch)]

/-- A plan is its own guarded plan exactly when it scans no governed table. -/
theorem guardPlan_eq_self_iff : guardPlan gov deep p = p ↔ ∀ t, Scanned t p → gov t = none := by
  refine LogicalPlan.induct ?_ p
  intro p hi hex
  rw [guardPlan_eq_self_step]
  constructor
  · rintro ⟨hs, hes, his⟩ t ht
    rcases scanned_iff.mp ht with ⟨projection, filters, fetch, rfl⟩ | ⟨e, he, q, hq, ht⟩ | ⟨q, hq, ht⟩
    · exact hs t _ _ _ rfl
    · exact (hex e he q hq).mp (hes e he q hq) t ht
    · exact (hi q hq).mp (his q hq) t ht
  · intro h
    refine ⟨?_, ?_, ?_⟩
    · rintro t projection filters fetch rfl
      exact h t (scanned_iff.mpr (.inl ⟨_, _, _, rfl⟩))
    · exact fun e he q hq => (hex e he q hq).mpr fun t ht => h t (scanned_iff.mpr (.inr (.inl ⟨e, he, q, hq, ht⟩)))
    · exact fun q hq => (hi q hq).mpr fun t ht => h t (scanned_iff.mpr (.inr (.inr ⟨q, hq, ht⟩)))

/-! ### Scans the walk jumps over -/

/-- No scan that gets its filter above an alias has a governed table in a subquery of its own filters. -/
def JumpFree (gov : TableReference → Option Expr) (p : LogicalPlan) : Prop :=
  ∀ name t projection filters fetch,
    (LogicalPlan.subqueryAlias name (.tableScan t projection filters fetch)).Within p → gov t ≠ none →
      ∀ e ∈ filters, ∀ q, e.Embeds q → ∀ t', Scanned t' q → gov t' = none

theorem jumpFree_iff : JumpFree gov p ↔
    (∀ name t projection filters fetch, p = .subqueryAlias name (.tableScan t projection filters fetch) →
      gov t ≠ none → ∀ e ∈ filters, ∀ q, e.Embeds q → ∀ t', Scanned t' q → gov t' = none) ∧
    (∀ e ∈ p.expressions, ∀ q, e.Embeds q → JumpFree gov q) ∧ ∀ q ∈ p.inputs, JumpFree gov q := by
  constructor
  · intro h
    refine ⟨?_, ?_, ?_⟩
    · rintro name t projection filters fetch rfl
      exact h name t projection filters fetch .refl
    · exact fun e he q hq name t projection filters fetch hw =>
        h name t projection filters fetch (.subquery he hq hw)
    · exact fun q hq name t projection filters fetch hw => h name t projection filters fetch (.input hq hw)
  · rintro ⟨hs, hes, his⟩ name t projection filters fetch hw
    cases hw with
    | refl => exact hs name t projection filters fetch rfl
    | input hi hw => exact his _ hi name t projection filters fetch hw
    | subquery he hq hw => exact hes _ he _ hq name t projection filters fetch hw

theorem jumpFree_of_ungoverned (h : ∀ t, Scanned t p → gov t = none) : JumpFree gov p := by
  intro name t projection filters fetch hw ht
  have hs : (LogicalPlan.tableScan t projection filters fetch).Within
      (.subqueryAlias name (.tableScan t projection filters fetch)) :=
    .input (by simp [LogicalPlan.inputs]) .refl
  exact absurd (h t ⟨projection, filters, fetch, hs.trans hw⟩) ht

/-- The enforcer's guarded plan is the full one exactly when the jumps skip nothing governed. -/
theorem guardPlan_false_eq_true_iff : guardPlan gov false p = guardPlan gov true p ↔ JumpFree gov p := by
  refine LogicalPlan.induct
    (motive := fun p => guardPlan gov false p = guardPlan gov true p ↔ JumpFree gov p) ?_ p
  intro p hin hex
  have hes : guardExprs gov false p.expressions = guardExprs gov true p.expressions ↔
      ∀ e ∈ p.expressions, ∀ q, e.Embeds q → JumpFree gov q := by
    rw [guardExprs_eq, guardExprs_eq, mapSubqueriesList_eq_iff]
    exact forall₂_congr fun e he => forall₂_congr fun q hq => hex e he q hq
  rw [jumpFree_iff, ← hes]
  by_cases hs : IsScan p
  · cases hs with
    | bare t projection filters fetch =>
      cases ht : gov t <;> simp [guardPlan_tableScan, guardScan, ht, LogicalPlan.expressions, LogicalPlan.inputs]
    | aliased name t projection filters fetch =>
      have hi := hin (.tableScan t projection filters fetch) (by simp [LogicalPlan.inputs])
      cases ht : gov t with
      | none =>
        have hfs : guardExprs gov false filters = guardExprs gov true filters ↔
            JumpFree gov (.tableScan t projection filters fetch) := by
          simpa [guardPlan_tableScan, guardScan, ht] using hi
        simp only [guardPlan_aliasedScan, guardScan, ht, map_none, isNone_none, Bool.or_true, if_true,
          LogicalPlan.subqueryAlias.injEq, LogicalPlan.tableScan.injEq, true_and, and_true, hfs,
          LogicalPlan.expressions, LogicalPlan.inputs, guardExprs, mem_singleton, forall_eq]
        refine ⟨fun h => ⟨?_, h⟩, fun h => h.2⟩
        rintro _ t' _ _ _ ⟨rfl, rfl, -⟩ ht'
        exact absurd ht ht'
      | some predicate =>
        -- the filters are left alone here, so they must be their own guarded filters
        have hfs : filters = guardExprs gov true filters ↔
            ∀ e ∈ filters, ∀ q, e.Embeds q → ∀ t', Scanned t' q → gov t' = none := by
          rw [eq_comm, guardExprs_eq_self_iff]
          exact forall₂_congr fun e _ => forall₂_congr fun q _ => guardPlan_eq_self_iff
        simp only [guardPlan_aliasedScan, guardScan, ht, map_some, isNone_some, Bool.or_self, Bool.true_or,
          if_true, Bool.false_eq_true, if_false, LogicalPlan.filter.injEq, LogicalPlan.subqueryAlias.injEq,
          LogicalPlan.tableScan.injEq, true_and, and_true, hfs, LogicalPlan.expressions, LogicalPlan.inputs,
          guardExprs, mem_singleton, forall_eq]
        constructor
        · intro h
          refine ⟨?_, jumpFree_iff.mpr ⟨?_, ?_, by simp [LogicalPlan.inputs]⟩⟩
          · rintro _ _ _ _ _ ⟨rfl, rfl, rfl, rfl, rfl⟩ -
            exact h
          · rintro _ _ _ _ _ ⟨⟩
          · exact fun e he q hq => jumpFree_of_ungoverned (h e he q hq)
        · rintro ⟨hse, -⟩
          exact hse name t projection filters fetch ⟨rfl, rfl, rfl, rfl, rfl⟩ (by simp [ht])
  · have hm : p.inputs.map (guardPlan gov false) = p.inputs.map (guardPlan gov true) ↔
        ∀ q ∈ p.inputs, JumpFree gov q := by
      rw [map_inj_left]
      exact forall₂_congr hin
    rw [guardPlan_of_not_isScan hs, guardPlan_of_not_isScan hs, LogicalPlan.withNew_inj (length_guardExprs _)
      (length_guardExprs _) (length_map _) (length_map _), hm]
    refine (and_iff_right ?_).symm
    rintro name t projection filters fetch rfl
    exact absurd (.aliased ..) hs

end Guard

/-! ## What a guarded plan computes -/

section Semantics

variable {V : Type} (I : Interp V) (db : Database V) (gov : TableReference → Option Expr)

/-- A predicate as a scan of its table under an alias, if it has one, must spell it. -/
def spelled (name : Option TableReference) (predicate : Expr) : Expr :=
  match name with
  | none => predicate
  | some name => requalifyColumns predicate name

/-- The rows of a scan that satisfy the table's predicate. -/
def governedKeep : Keep V := fun name t outer row =>
  match gov t with
  | none => true
  | some p => I.isTrue (evalExpr I db keepAll outer row (spelled name p))

variable {I db gov}

theorem evalPlan_guardScan (name) (t) (outer) (scan) :
    evalPlan I db keepAll outer (guardScan ((gov t).map (spelled name)) scan) =
      (evalPlan I db keepAll outer scan).filter (governedKeep I db gov name t outer) := by
  cases ht : gov t with
  | none =>
    have hk : governedKeep I db gov name t outer = fun _ => true := by
      funext row
      simp only [governedKeep, ht]
    rw [hk, filter_true]
    rfl
  | some p =>
    have hk : governedKeep I db gov name t outer =
        fun row => I.isTrue (evalExpr I db keepAll outer row (spelled name p)) := by
      funext row
      simp only [governedKeep, ht]
    simp only [map_some, guardScan, evalPlan, evalExpr_unaliasNested, hk]

theorem evalPlan_guardPlan_of_not_isScan {deep keep outer p} (h : ¬ IsScan p)
    (hes : ∀ row, evalExprs I db keepAll outer row (guardExprs gov deep p.expressions) =
      evalExprs I db keep outer row p.expressions)
    (his : ∀ q ∈ p.inputs, evalPlan I db keepAll outer (guardPlan gov deep q) = evalPlan I db keep outer q) :
    evalPlan I db keepAll outer (guardPlan gov deep p) = evalPlan I db keep outer p := by
  cases p with
  | tableScan => exact absurd (.bare ..) h
  | filter predicate input =>
    have hp : ∀ row, evalExpr I db keepAll outer row (guardExpr gov deep predicate) =
        evalExpr I db keep outer row predicate := fun row => by
      simpa [guardExprs, evalExprs, LogicalPlan.expressions] using hes row
    have hi := his input (by simp [LogicalPlan.inputs])
    simp only [guardPlan, evalPlan, hp, hi]
  | projection expr input schema =>
    have hi := his input (by simp [LogicalPlan.inputs])
    simp only [LogicalPlan.expressions] at hes
    simp only [guardPlan, evalPlan, hes, hi]
  | subqueryAlias name input =>
    have hin : ∀ t projection filters fetch, input ≠ .tableScan t projection filters fetch := by
      rintro t projection filters fetch rfl
      exact h (.aliased ..)
    rw [guardPlan_subqueryAlias hin, evalPlan_subqueryAlias hin,
      evalPlan_subqueryAlias (guardPlan_ne_tableScan hin), his input (by simp [LogicalPlan.inputs])]
  | node kind detail exprs inputs schema =>
    simp only [LogicalPlan.expressions] at hes
    have hi : (inputs.map (guardPlan gov deep)).map (evalPlan I db keepAll outer) =
        inputs.map (evalPlan I db keep outer) := by
      rw [List.map_map]
      exact List.map_congr_left his
    simp only [guardPlan, guardPlans_eq, evalPlan, evalPlans_eq_map, hes, hi]

/-- **A guarded plan sees the governed rows only**: it computes what the plan itself computes when
every governed scan gives just the rows its predicate holds on. -/
theorem evalPlan_guardPlan (p) : ∀ outer,
    evalPlan I db keepAll outer (guardPlan gov true p) = evalPlan I db (governedKeep I db gov) outer p := by
  refine LogicalPlan.inductWithin ?_ p
  intro p hi hex outer
  have hes : ∀ es, (∀ e ∈ es, ∀ q, e.Embeds q → ∀ outer,
        evalPlan I db keepAll outer (guardPlan gov true q) = evalPlan I db (governedKeep I db gov) outer q) →
      ∀ row, evalExprs I db keepAll outer row (guardExprs gov true es) =
        evalExprs I db (governedKeep I db gov) outer row es := by
    intro es h row
    rw [guardExprs_eq]
    exact evalExprs_mapSubqueries h outer row
  have ho := hes _ fun e he q hq => hex e he q hq q .refl
  by_cases hs : IsScan p
  · cases hs with
    | bare t projection filters fetch =>
      simp only [LogicalPlan.expressions] at ho
      have hg := @evalPlan_guardScan V I db gov none t outer
        (.tableScan t projection (guardExprs gov true filters) fetch)
      simp only [guardPlan_tableScan, evalPlan]
      simp only [evalPlan, filter_keepAll, ho] at hg
      rw [← hg]
      exact congrArg (fun p => evalPlan I db keepAll outer (guardScan p _)) (by cases gov t <;> rfl)
    | aliased name t projection filters fetch =>
      have hfs := hes filters fun e he q hq =>
        hi (.tableScan t projection filters fetch) (by simp [LogicalPlan.inputs]) q (.subquery he hq .refl)
      have hg := @evalPlan_guardScan V I db gov (some name) t outer
        (.subqueryAlias name (.tableScan t projection (guardExprs gov true filters) fetch))
      simp only [guardPlan_aliasedScan, Bool.true_or, if_true]
      simp only [evalPlan, filter_keepAll, hfs] at hg ⊢
      exact hg
  · exact evalPlan_guardPlan_of_not_isScan hs ho fun q hq => hi q hq q .refl outer

section Twice

variable {deep : Bool}

theorem guardPlan_filter_predicate {p : Expr} (hp : ∀ q, ¬ p.Embeds q) (input) :
    guardPlan gov deep (.filter p.unaliasNested input) = .filter p.unaliasNested (guardPlan gov deep input) := by
  rw [guardPlan, guardExpr_eq_self_iff.mpr fun q hq => absurd (embeds_unaliasNested.mp hq) (hp q)]

theorem evalExprs_guardExprs_twice {es}
    (h : ∀ e ∈ es, ∀ q, e.Embeds q → ∀ outer, evalPlan I db keepAll outer (guardPlan gov deep (guardPlan gov deep q)) =
      evalPlan I db keepAll outer (guardPlan gov deep q)) (outer row) :
    evalExprs I db keepAll outer row (guardExprs gov deep (guardExprs gov deep es)) =
      evalExprs I db keepAll outer row (guardExprs gov deep es) := by
  rw [guardExprs_eq (guardExprs gov deep es)]
  refine evalExprs_mapSubqueries ?_ outer row
  intro e he q hq outer
  rw [guardExprs_eq] at he
  obtain ⟨e', he', q', hq', rfl⟩ := embeds_mapSubqueriesList.mp ⟨e, he, hq⟩
  exact h e' he' q' hq' outer

/-- Guarding twice computes what guarding once computes, for predicates without subqueries. -/
theorem evalPlan_guardPlan_twice (hg : ∀ t p, gov t = some p → ∀ q, ¬ p.Embeds q) (p) :
    ∀ outer : Row V, evalPlan I db keepAll outer (guardPlan gov deep (guardPlan gov deep p)) =
      evalPlan I db keepAll outer (guardPlan gov deep p) := by
  refine LogicalPlan.inductWithin ?_ p
  intro p hi hex outer
  have hes := fun row => evalExprs_guardExprs_twice (fun e he q hq => hex e he q hq q .refl) outer row
  by_cases hs : IsScan p
  · cases hs with
    | bare t projection filters fetch =>
      simp only [LogicalPlan.expressions] at hes
      cases ht : gov t with
      | none => simp only [guardPlan_tableScan, ht, guardScan, evalPlan, hes]
      | some predicate =>
        simp only [guardPlan_tableScan, ht, guardScan, guardPlan_filter_predicate (hg t predicate ht), evalPlan, hes]
        rw [List.filter_filter]
        simp only [Bool.and_self]
    | aliased name t projection filters fetch =>
      have hfs := fun row => evalExprs_guardExprs_twice
        (fun e he q hq => hi (.tableScan t projection filters fetch) (by simp [LogicalPlan.inputs]) q
          (.subquery he hq .refl)) outer row
      simp only [LogicalPlan.expressions] at hfs
      cases ht : gov t with
      | none =>
        simp only [guardPlan_aliasedScan, ht, Option.map_none, guardScan, Option.isNone_none, Bool.or_true, if_true,
          evalPlan, hfs]
      | some predicate =>
        have hp : ∀ q, ¬ (requalifyColumns predicate name).Embeds q := fun q hq =>
          hg t predicate ht q ((embeds_substColumns.mp hq).resolve_right (by simp))
        simp only [guardPlan_aliasedScan, ht, Option.map_some, guardScan, guardPlan_filter_predicate hp, Option.isNone_some,
          Bool.or_false]
        cases deep with
        | false =>
          simp only [Bool.false_eq_true, if_false, evalPlan, filter_keepAll, List.filter_filter, Bool.and_self]
        | true =>
          simp only [if_true, evalPlan, filter_keepAll, hfs, List.filter_filter, Bool.and_self]
  · refine evalPlan_guardPlan_of_not_isScan (not_isScan_guardPlan hs) ?_ ?_
    · rwa [expressions_guardPlan hs]
    · rw [inputs_guardPlan hs, List.forall_mem_map]
      exact fun q hq => hi q hq q .refl outer

end Twice

end Semantics

end Dataglot
