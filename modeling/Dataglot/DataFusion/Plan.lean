/-
The part of DataFusion's logical plans that the policy layer reads and
rewrites: table references, columns, expressions and plan nodes. A plan and its
expressions are one mutual family, since an expression may embed the plan of a
subquery. Everything a node holds beside its expressions and inputs is carried
as text in `detail`, so that two plans that differ anywhere are different terms.
-/
import Mathlib.Data.Set.Finite.Lattice

namespace DataFusion
open List

/-! ## Names -/

/-- `TableReference`: a table as it is written, with as much qualification as it has. -/
inductive TableReference
  | bare (table : String)
  | partialRef (schema table : String)
  | full (catalog schema table : String)
  deriving DecidableEq, Repr

namespace TableReference

def table : TableReference → String
  | bare t => t
  | partialRef _ t => t
  | full _ _ t => t

def schema : TableReference → Option String
  | bare _ => none
  | partialRef s _ => some s
  | full _ s _ => some s

def catalog : TableReference → Option String
  | bare _ => none
  | partialRef _ _ => none
  | full c _ _ => some c

/-- How many parts the reference writes out. -/
def level : TableReference → Nat
  | bare _ => 1
  | partialRef _ _ => 2
  | full _ _ _ => 3

/-- `TableReference::resolve`: the missing parts are filled from the session's defaults. -/
def resolve (r : TableReference) (defaultCatalog defaultSchema : String) : String × String × String :=
  match r with
  | bare t => (defaultCatalog, defaultSchema, t)
  | partialRef s t => (defaultCatalog, s, t)
  | full c s t => (c, s, t)

/-- `TableReference::resolved_eq`: equal in every part that both sides write out. -/
def resolvedEq (a b : TableReference) : Bool :=
  match a, b with
  | full c s t, full c' s' t' => c == c' && s == s' && t == t'
  | full _ s t, partialRef s' t' => s == s' && t == t'
  | partialRef s t, full _ s' t' => s == s' && t == t'
  | partialRef s t, partialRef s' t' => s == s' && t == t'
  | a, b => a.table == b.table

theorem resolvedEq_bare_left (t) (b) : (bare t).resolvedEq b = (t == b.table) := by
  cases b <;> rfl

theorem resolvedEq_bare_right (a : TableReference) (t) : a.resolvedEq (bare t) = (a.table == t) := by
  cases a <;> rfl

theorem resolvedEq_self (a : TableReference) : a.resolvedEq a := by
  cases a <;> simp [resolvedEq]

/-- The derived order: by variant, then by the parts as they are written. -/
def le (a b : TableReference) : Bool :=
  match a, b with
  | bare t, bare t' => t ≤ t'
  | partialRef s t, partialRef s' t' => s < s' || s == s' && t ≤ t'
  | full c s t, full c' s' t' => c < c' || c == c' && (s < s' || s == s' && t ≤ t')
  | a, b => a.level ≤ b.level

/-- The reference as SQL writes it. -/
def render : TableReference → String
  | bare t => t
  | partialRef s t => s ++ "." ++ t
  | full c s t => c ++ "." ++ s ++ "." ++ t

end TableReference

structure Column where
  relation : Option TableReference
  name : String
  deriving DecidableEq, Repr

inductive ScalarValue
  | null
  | boolean (b : Bool)
  | int64 (i : Int)
  | utf8 (s : String)
  deriving DecidableEq, Repr

/-- The plan nodes that no enforcer takes apart: they are their expressions and their inputs. -/
inductive NodeKind
  | join | sort | window | aggregate | repartition | union | emptyRelation | subquery | limit
  | statement | values | explain | analyze | extension | distinctAll | distinctOn | dml | ddl
  | copy | describeTable | unnest | recursiveQuery
  deriving DecidableEq, Repr

/-! ## Expressions and plans -/

mutual

/-- `Expr`. `op` is any variant without a subquery of its own: operators, functions, casts, `CASE`,
aggregates; `head` renders the variant and its data. -/
inductive Expr
  | column (c : Column)
  | outerReferenceColumn (c : Column)
  | literal (v : ScalarValue)
  | aliasExpr (expr : Expr) (relation : Option TableReference) (name : String)
  | op (head : String) (args : List Expr)
  | scalarSubquery (subquery : LogicalPlan) (outerRefColumns : List Expr)
  | inSubquery (expr : Expr) (subquery : LogicalPlan) (outerRefColumns : List Expr) (negated : Bool)
  | setComparison (expr : Expr) (subquery : LogicalPlan) (outerRefColumns : List Expr)
      (cmp quantifier : String)
  | existsSubquery (subquery : LogicalPlan) (outerRefColumns : List Expr) (negated : Bool)

/-- `LogicalPlan`. The nodes an enforcer matches on have a constructor of their own. The `schema` of
a node names the columns it computes; DataFusion stores it beside the expressions, and rewriting the
expressions leaves it as it is. -/
inductive LogicalPlan
  | tableScan (tableName : TableReference) (projection : Option (List Nat)) (filters : List Expr)
      (fetch : Option Nat)
  | filter (predicate : Expr) (input : LogicalPlan)
  | projection (expr : List Expr) (input : LogicalPlan) (schema : List Column)
  | subqueryAlias (name : TableReference) (input : LogicalPlan)
  | node (kind : NodeKind) (detail : String) (exprs : List Expr) (inputs : List LogicalPlan)
      (schema : List Column)

end

namespace Expr

/-- The expressions `Expr::apply` descends into. The plan of a subquery is not one of them. -/
def children : Expr → List Expr
  | aliasExpr e _ _ => [e]
  | op _ args => args
  | inSubquery e _ _ _ => [e]
  | setComparison e _ _ _ _ => [e]
  | _ => []

mutual

/-- The nodes `Expr::apply` visits, in its order: an expression, then its children's nodes. -/
def nodes : Expr → List Expr
  | aliasExpr e r n => aliasExpr e r n :: nodes e
  | op h args => op h args :: nodesList args
  | inSubquery e q o neg => inSubquery e q o neg :: nodes e
  | setComparison e q o c k => setComparison e q o c k :: nodes e
  | column c => [column c]
  | outerReferenceColumn c => [outerReferenceColumn c]
  | literal v => [literal v]
  | scalarSubquery q o => [scalarSubquery q o]
  | existsSubquery q o neg => [existsSubquery q o neg]

def nodesList : List Expr → List Expr
  | [] => []
  | e :: es => nodes e ++ nodesList es

end

theorem nodesList_eq_flatMap : (es : List Expr) → nodesList es = es.flatMap nodes
  | [] => rfl
  | e :: es => by simp [nodesList, nodesList_eq_flatMap es]

theorem nodes_eq (e : Expr) : e.nodes = e :: e.children.flatMap nodes := by
  cases e <;> simp [nodes, children, nodesList_eq_flatMap]

theorem mem_nodes {s e : Expr} : s ∈ e.nodes ↔ s = e ∨ ∃ c ∈ e.children, s ∈ c.nodes := by
  rw [nodes_eq, mem_cons, mem_flatMap]

@[simp] theorem self_mem_nodes (e : Expr) : e ∈ e.nodes := mem_nodes.mpr (.inl rfl)

/-- The plan an expression holds itself, in one of the four forms of a subquery. -/
def embeddedSubquery : Expr → Option LogicalPlan
  | scalarSubquery q _ => some q
  | inSubquery _ q _ _ => some q
  | setComparison _ q _ _ _ => some q
  | existsSubquery q _ _ => some q
  | _ => none

/-- The plan `q` is embedded in the expression, at whatever depth `Expr::apply` finds it. -/
def Embeds (e : Expr) (q : LogicalPlan) : Prop :=
  ∃ s ∈ e.nodes, s.embeddedSubquery = some q

section Embeds

variable {e : Expr} {args o : List Expr} {p q : LogicalPlan}

theorem embeds_iff : e.Embeds q ↔ e.embeddedSubquery = some q ∨ ∃ c ∈ e.children, c.Embeds q := by
  constructor
  · rintro ⟨s, hs, hq⟩
    rcases mem_nodes.mp hs with rfl | ⟨c, hc, hs⟩
    · exact .inl hq
    · exact .inr ⟨c, hc, s, hs, hq⟩
  · rintro (hq | ⟨c, hc, s, hs, hq⟩)
    · exact ⟨e, self_mem_nodes e, hq⟩
    · exact ⟨s, mem_nodes.mpr (.inr ⟨c, hc, hs⟩), hq⟩

theorem embeds_iff_of (own) (cs) (ho : e.embeddedSubquery = own)
    (hcs : e.children = cs) : e.Embeds q ↔ own = some q ∨ ∃ c ∈ cs, c.Embeds q := by
  rw [embeds_iff, ho, hcs]

@[simp] theorem embeds_column {c} : ¬ (column c).Embeds q := by
  rw [embeds_iff_of none [] rfl rfl]; simp

@[simp] theorem embeds_outerReferenceColumn {c} : ¬ (outerReferenceColumn c).Embeds q := by
  rw [embeds_iff_of none [] rfl rfl]; simp

@[simp] theorem embeds_literal {v} : ¬ (literal v).Embeds q := by
  rw [embeds_iff_of none [] rfl rfl]; simp

@[simp] theorem embeds_aliasExpr {r n} : (aliasExpr e r n).Embeds q ↔ e.Embeds q := by
  rw [embeds_iff_of none [e] rfl rfl]; simp

@[simp] theorem embeds_op {h} : (op h args).Embeds q ↔ ∃ c ∈ args, c.Embeds q := by
  rw [embeds_iff_of none args rfl rfl]; simp

@[simp] theorem embeds_scalarSubquery : (scalarSubquery p o).Embeds q ↔ p = q := by
  rw [embeds_iff_of (some p) [] rfl rfl]; simp

@[simp] theorem embeds_inSubquery {neg} : (inSubquery e p o neg).Embeds q ↔ p = q ∨ e.Embeds q := by
  rw [embeds_iff_of (some p) [e] rfl rfl]; simp

@[simp] theorem embeds_setComparison {c k} : (setComparison e p o c k).Embeds q ↔ p = q ∨ e.Embeds q := by
  rw [embeds_iff_of (some p) [e] rfl rfl]; simp

@[simp] theorem embeds_existsSubquery {neg} : (existsSubquery p o neg).Embeds q ↔ p = q := by
  rw [embeds_iff_of (some p) [] rfl rfl]; simp

end Embeds

mutual

/-- Every column an expression reads itself, replaced; its subqueries' plans are left alone. -/
def substColumns (f : Column → Expr) : Expr → Expr
  | column c => f c
  | outerReferenceColumn c => outerReferenceColumn c
  | literal v => literal v
  | aliasExpr e r n => aliasExpr (substColumns f e) r n
  | op h args => op h (substColumnsList f args)
  | scalarSubquery q o => scalarSubquery q o
  | inSubquery e q o neg => inSubquery (substColumns f e) q o neg
  | setComparison e q o c k => setComparison (substColumns f e) q o c k
  | existsSubquery q o neg => existsSubquery q o neg

def substColumnsList (f : Column → Expr) : List Expr → List Expr
  | [] => []
  | e :: es => substColumns f e :: substColumnsList f es

end

mutual

/-- `Expr::unalias_nested`: aliases are dropped, except in an expression that holds a subquery. -/
def unaliasNested : Expr → Expr
  | aliasExpr e _ _ => unaliasNested e
  | op h args => op h (unaliasNestedList args)
  | column c => column c
  | outerReferenceColumn c => outerReferenceColumn c
  | literal v => literal v
  | scalarSubquery q o => scalarSubquery q o
  | inSubquery e q o neg => inSubquery e q o neg
  | setComparison e q o c k => setComparison e q o c k
  | existsSubquery q o neg => existsSubquery q o neg

def unaliasNestedList : List Expr → List Expr
  | [] => []
  | e :: es => unaliasNested e :: unaliasNestedList es

end

mutual

/-- Every embedded plan replaced, wherever in the expression it stands. -/
def mapSubqueries (f : LogicalPlan → LogicalPlan) : Expr → Expr
  | scalarSubquery q o => scalarSubquery (f q) o
  | inSubquery e q o neg => inSubquery (mapSubqueries f e) (f q) o neg
  | setComparison e q o c k => setComparison (mapSubqueries f e) (f q) o c k
  | existsSubquery q o neg => existsSubquery (f q) o neg
  | aliasExpr e r n => aliasExpr (mapSubqueries f e) r n
  | op h args => op h (mapSubqueriesList f args)
  | column c => column c
  | outerReferenceColumn c => outerReferenceColumn c
  | literal v => literal v

def mapSubqueriesList (f : LogicalPlan → LogicalPlan) : List Expr → List Expr
  | [] => []
  | e :: es => mapSubqueries f e :: mapSubqueriesList f es

end

section MapSubqueries

variable {f g : LogicalPlan → LogicalPlan} {σ τ : Column → Expr}

theorem mapSubqueriesList_eq_map : ∀ es, mapSubqueriesList f es = es.map (mapSubqueries f)
  | [] => rfl
  | e :: es => by rw [mapSubqueriesList, mapSubqueriesList_eq_map es, map_cons]

theorem substColumnsList_eq_map : ∀ es, substColumnsList σ es = es.map (substColumns σ)
  | [] => rfl
  | e :: es => by rw [substColumnsList, substColumnsList_eq_map es, map_cons]

@[simp] theorem mapSubqueries_id : ∀ e : Expr, e.mapSubqueries id = e
  | inSubquery e _ _ _ | setComparison e _ _ _ _ | aliasExpr e _ _ => by simp [mapSubqueries, mapSubqueries_id e]
  | op _ args => by
    rw [mapSubqueries, mapSubqueriesList_eq_map, map_congr_left fun e _ => mapSubqueries_id e, map_id']
  | scalarSubquery _ _ | existsSubquery _ _ _ | column _ | outerReferenceColumn _ | literal _ => rfl

@[simp] theorem substColumns_column : ∀ e : Expr, e.substColumns column = e
  | inSubquery e _ _ _ | setComparison e _ _ _ _ | aliasExpr e _ _ => by rw [substColumns, substColumns_column e]
  | op _ args => by
    rw [substColumns, substColumnsList_eq_map, map_congr_left fun e _ => substColumns_column e, map_id']
  | scalarSubquery _ _ | existsSubquery _ _ _ | column _ | outerReferenceColumn _ | literal _ => rfl

/-- Both replacements can be read back from the result. -/
theorem substColumns_mapSubqueries_eq_iff : ∀ {e : Expr},
    (e.mapSubqueries f).substColumns σ = (e.mapSubqueries g).substColumns τ ↔
      (∀ q, e.Embeds q → f q = g q) ∧ ∀ c, column c ∈ e.nodes → σ c = τ c
  | column _ | outerReferenceColumn _ | literal _ | scalarSubquery _ _ | existsSubquery _ _ _ => by
    simp [mapSubqueries, substColumns, nodes]
  | aliasExpr e _ _ => by
    simp [mapSubqueries, substColumns, nodes, @substColumns_mapSubqueries_eq_iff e]
  | inSubquery e _ _ _ | setComparison e _ _ _ _ => by
    simp [mapSubqueries, substColumns, nodes, @substColumns_mapSubqueries_eq_iff e, or_imp, forall_and, and_comm,
      and_assoc]
  | op _ args => by
    simp only [mapSubqueries, substColumns, op.injEq, true_and, mapSubqueriesList_eq_map, substColumnsList_eq_map,
      map_map, map_inj_left, Function.comp_apply]
    rw [forall₂_congr fun e _ => @substColumns_mapSubqueries_eq_iff e]
    simp only [embeds_op, nodes, nodesList_eq_flatMap, mem_cons, reduceCtorEq, false_or, mem_flatMap]
    constructor
    · exact fun h => ⟨fun q ⟨e, he, hq⟩ => (h e he).1 q hq, fun c ⟨e, he, hc⟩ => (h e he).2 c hc⟩
    · exact fun h e he => ⟨fun q hq => h.1 q ⟨e, he, hq⟩, fun c hc => h.2 c ⟨e, he, hc⟩⟩

variable {e : Expr} {q : LogicalPlan}

theorem mapSubqueries_eq_iff : e.mapSubqueries f = e.mapSubqueries g ↔ ∀ q, e.Embeds q → f q = g q := by
  simpa using @substColumns_mapSubqueries_eq_iff f g column column e

theorem mapSubqueriesList_eq_iff {es} :
    mapSubqueriesList f es = mapSubqueriesList g es ↔ ∀ e ∈ es, ∀ q, e.Embeds q → f q = g q := by
  simp only [mapSubqueriesList_eq_map, map_inj_left, mapSubqueries_eq_iff]

theorem mapSubqueriesList_id (es) : mapSubqueriesList id es = es := by
  rw [mapSubqueriesList_eq_map, map_congr_left fun e _ => mapSubqueries_id e, map_id']

theorem substColumns_congr (h : ∀ c, column c ∈ e.nodes → σ c = τ c) : e.substColumns σ = e.substColumns τ := by
  simpa using (@substColumns_mapSubqueries_eq_iff id id σ τ e).mpr ⟨fun _ _ => rfl, h⟩

theorem embeds_substColumns_mapSubqueries : ∀ {e : Expr}, ((e.mapSubqueries f).substColumns σ).Embeds q ↔
      (∃ p, e.Embeds p ∧ f p = q) ∨ ∃ c, column c ∈ e.nodes ∧ (σ c).Embeds q
  | column _ | outerReferenceColumn _ | literal _ | scalarSubquery _ _ | existsSubquery _ _ _ => by
    simp [mapSubqueries, substColumns, nodes]
  | aliasExpr e _ _ => by
    simp [mapSubqueries, substColumns, nodes, @embeds_substColumns_mapSubqueries e]
  | inSubquery e _ _ _ | setComparison e _ _ _ _ => by
    simp [mapSubqueries, substColumns, nodes, @embeds_substColumns_mapSubqueries e, or_and_right, exists_or, or_assoc]
  | op _ args => by
    simp only [mapSubqueries, substColumns, embeds_op, mapSubqueriesList_eq_map, substColumnsList_eq_map,
      mem_map, exists_exists_and_eq_and]
    rw [exists_congr fun e => and_congr_right fun _ => @embeds_substColumns_mapSubqueries e]
    simp only [nodes, nodesList_eq_flatMap, mem_cons, reduceCtorEq, false_or, mem_flatMap]
    constructor
    · rintro ⟨e, he, ⟨p, hp, hq⟩ | ⟨c, hc, hq⟩⟩
      · exact .inl ⟨p, ⟨e, he, hp⟩, hq⟩
      · exact .inr ⟨c, ⟨e, he, hc⟩, hq⟩
    · rintro (⟨p, ⟨e, he, hp⟩, hq⟩ | ⟨c, ⟨e, he, hc⟩, hq⟩)
      · exact ⟨e, he, .inl ⟨p, hp, hq⟩⟩
      · exact ⟨e, he, .inr ⟨c, hc, hq⟩⟩

theorem embeds_mapSubqueries : (e.mapSubqueries f).Embeds q ↔ ∃ p, e.Embeds p ∧ f p = q := by
  simpa using @embeds_substColumns_mapSubqueries f column q e

theorem embeds_mapSubqueriesList {es} :
    (∃ e ∈ mapSubqueriesList f es, e.Embeds q) ↔ ∃ e ∈ es, ∃ p, e.Embeds p ∧ f p = q := by
  simp [mapSubqueriesList_eq_map, embeds_mapSubqueries]

theorem embeds_substColumns :
    (e.substColumns σ).Embeds q ↔ e.Embeds q ∨ ∃ c, column c ∈ e.nodes ∧ (σ c).Embeds q := by
  simpa using @embeds_substColumns_mapSubqueries id σ q e

theorem nodes_mapSubqueries : ∀ e : Expr, (e.mapSubqueries f).nodes = e.nodes.map (mapSubqueries f)
  | aliasExpr e _ _ | inSubquery e _ _ _ | setComparison e _ _ _ _ => by
    simp [mapSubqueries, nodes, nodes_mapSubqueries e]
  | op _ args => by
    simp only [mapSubqueries, nodes, mapSubqueriesList_eq_map, nodesList_eq_flatMap, map_cons, map_flatMap,
      flatMap_map]
    rw [flatMap_congr fun e _ => nodes_mapSubqueries e]
  | column _ | outerReferenceColumn _ | literal _ | scalarSubquery _ _ | existsSubquery _ _ _ => rfl

@[simp] theorem mapSubqueries_eq_column {c} : e.mapSubqueries f = column c ↔ e = column c := by
  cases e <;> simp [mapSubqueries]

theorem column_mem_nodes_mapSubqueries {c} : column c ∈ (e.mapSubqueries f).nodes ↔ column c ∈ e.nodes := by
  simp [nodes_mapSubqueries]

end MapSubqueries

theorem unaliasNestedList_eq_map : ∀ es, unaliasNestedList es = es.map unaliasNested
  | [] => rfl
  | e :: es => by rw [unaliasNestedList, unaliasNestedList_eq_map es, map_cons]

theorem embeds_unaliasNested {q} : ∀ {e : Expr}, e.unaliasNested.Embeds q ↔ e.Embeds q
  | aliasExpr e _ _ => by rw [unaliasNested, embeds_aliasExpr, @embeds_unaliasNested q e]
  | op _ args => by
    simp only [unaliasNested, embeds_op, unaliasNestedList_eq_map, mem_map, exists_exists_and_eq_and]
    exact exists_congr fun e => and_congr_right fun _ => embeds_unaliasNested
  | column _ | outerReferenceColumn _ | literal _ | scalarSubquery _ _ | inSubquery _ _ _ _
  | setComparison _ _ _ _ _ | existsSubquery _ _ _ => .rfl

/-- The columns an expression reads itself, not those its subqueries read. -/
def columns (e : Expr) : List Column :=
  e.nodes.filterMap fun
    | column c => some c
    | _ => none

theorem mem_columns {e : Expr} {c} : c ∈ e.columns ↔ column c ∈ e.nodes := by
  unfold columns
  rw [mem_filterMap]
  constructor
  · rintro ⟨s, hs, h⟩
    cases s <;> simp only [reduceCtorEq, Option.some.injEq] at h
    exact h ▸ hs
  · exact fun h => ⟨_, h, rfl⟩

end Expr

namespace LogicalPlan

def expressions : LogicalPlan → List Expr
  | tableScan _ _ filters _ => filters
  | filter predicate _ => [predicate]
  | projection expr _ _ => expr
  | subqueryAlias _ _ => []
  | node _ _ exprs _ _ => exprs

def inputs : LogicalPlan → List LogicalPlan
  | tableScan _ _ _ _ => []
  | filter _ input => [input]
  | projection _ input _ => [input]
  | subqueryAlias _ input => [input]
  | node _ _ _ inputs _ => inputs

/-! ## Induction

A plan is built from its inputs and from the plans its expressions embed. -/

/-- `motive` passes from the inputs of a plan and the plans its expressions embed to the plan. -/
def Progressive (motive : LogicalPlan → Prop) : Prop :=
  ∀ p : LogicalPlan, (∀ q ∈ p.inputs, motive q) →
    (∀ e ∈ p.expressions, ∀ q, e.Embeds q → motive q) → motive p

section Induction

variable {motive : LogicalPlan → Prop}

mutual

/-- **Induction over plans**: what holds of a plan whenever it holds of the plan's inputs and of the
plans embedded in its expressions holds of every plan. -/
@[elab_as_elim] theorem induct (step : Progressive motive) : ∀ p, motive p
  | tableScan _ _ filters _ => step _ (by simp [inputs]) (inductExprs step filters)
  | filter predicate input =>
    step _ (by simpa [inputs] using induct step input) (by simpa [expressions] using inductExpr step predicate)
  | projection expr input _ => step _ (by simpa [inputs] using induct step input) (inductExprs step expr)
  | subqueryAlias _ input => step _ (by simpa [inputs] using induct step input) (by simp [expressions])
  | node _ _ exprs inputs _ => step _ (inductInputs step inputs) (inductExprs step exprs)

theorem inductInputs (step : Progressive motive) : ∀ ps : List LogicalPlan, ∀ p ∈ ps, motive p
  | [] => by simp
  | p :: ps => forall_mem_cons.mpr ⟨induct step p, inductInputs step ps⟩

theorem inductExpr (step : Progressive motive) : ∀ e : Expr, ∀ q, e.Embeds q → motive q
  | .scalarSubquery p _ => by simpa using induct step p
  | .existsSubquery p _ _ => by simpa using induct step p
  | .inSubquery e p _ _ => by
    simpa [or_imp, forall_and] using ⟨induct step p, inductExpr step e⟩
  | .setComparison e p _ _ _ => by
    simpa [or_imp, forall_and] using ⟨induct step p, inductExpr step e⟩
  | .aliasExpr e _ _ => by simpa using inductExpr step e
  | .op _ args => by
    intro q h
    obtain ⟨c, hc, hq⟩ := Expr.embeds_op.mp h
    exact inductExprs step args c hc q hq
  | .column _ | .outerReferenceColumn _ | .literal _ => by simp

theorem inductExprs (step : Progressive motive) : ∀ es : List Expr, ∀ e ∈ es, ∀ q, e.Embeds q → motive q
  | [] => by simp
  | e :: es => forall_mem_cons.mpr ⟨inductExpr step e, inductExprs step es⟩

end

end Induction

/-- `q` stands somewhere in the plan: it is the plan, or stands in one of its inputs or in a plan that
one of its expressions embeds. -/
inductive Within (q : LogicalPlan) : LogicalPlan → Prop
  | refl : Within q q
  | input {p i : LogicalPlan} : i ∈ p.inputs → Within q i → Within q p
  | subquery {p s : LogicalPlan} {e : Expr} : e ∈ p.expressions → e.Embeds s → Within q s → Within q p

theorem Within.trans {q p p' : LogicalPlan} (h : q.Within p) (h' : p.Within p') : q.Within p' := by
  induction h' with
  | refl => exact h
  | input hi _ ih => exact .input hi ih
  | subquery he hs _ ih => exact .subquery he hs ih

theorem finite_embeds (e : Expr) : {q | e.Embeds q}.Finite := by
  have hs : {q | e.Embeds q} = {q | q ∈ e.nodes.filterMap Expr.embeddedSubquery} := by
    ext q
    simp [Expr.Embeds, mem_filterMap]
  rw [hs]
  exact finite_toSet _

theorem finite_within (p : LogicalPlan) : {q : LogicalPlan | q.Within p}.Finite := by
  refine induct ?_ p
  intro p hin hex
  have hsu : {q : LogicalPlan | q.Within p} ⊆ {p} ∪ (⋃ i ∈ {i | i ∈ p.inputs}, {q | Within q i}) ∪
      ⋃ e ∈ {e | e ∈ p.expressions}, ⋃ s ∈ {s | e.Embeds s}, {q | Within q s} := by
    intro q hq
    cases hq with
    | refl => exact .inl (.inl rfl)
    | input hi hw => exact .inl (.inr (Set.mem_biUnion hi hw))
    | subquery he hs hw => exact .inr (Set.mem_biUnion he (Set.mem_biUnion hs hw))
  refine Set.Finite.subset (((Set.finite_singleton p).union ?_).union ?_) hsu
  · exact (finite_toSet p.inputs).biUnion hin
  · exact (finite_toSet p.expressions).biUnion fun e he => (finite_embeds e).biUnion (hex e he)

/-- Induction with the hypothesis for every plan that stands in an input or in an embedded plan. -/
@[elab_as_elim] theorem inductWithin {motive : LogicalPlan → Prop}
    (step : ∀ p, (∀ i ∈ p.inputs, ∀ q, q.Within i → motive q) →
      (∀ e ∈ p.expressions, ∀ s, e.Embeds s → ∀ q, q.Within s → motive q) → motive p)
    (p) : motive p := by
  have key : ∀ p, ∀ q, q.Within p → motive q := by
    refine induct ?_
    intro p hin hex q hq
    cases hq with
    | refl => exact step _ hin hex
    | input hi hw => exact hin _ hi q hw
    | subquery he hs hw => exact hex _ he _ hs q hw
  exact key p p .refl

end LogicalPlan

end DataFusion
