/-
How a plan is rewritten from the top: `transform_down` over the plan's nodes,
and at each node, before the rewrite itself, a descent into the subquery plans
embedded in the node's expressions, each of which is rewritten as a plan of its
own. What is done at a node is a parameter.

DataFusion reports with every result whether anything changed; the recursion
below carries that flag. If rewriting a plan is known to give `f` of it, the
lemmas at the end say what rewriting an expression or a list of inputs gives.
-/
import Dataglot.DataFusion.Plan
import Dataglot.Library.ExceptFacts

namespace DataFusion
open Except Expr List

/-- `DataFusionError`, as far as a rewrite ends with one. `recursionLimit` stands for a walk that does
not end. -/
inductive DataFusionError
  | plan (message : String)
  | recursionLimit
  deriving DecidableEq, Repr

/-- `Transformed`: a rewritten value, and whether the rewrite changed it. -/
structure Transformed (α : Type) where
  data : α
  transformed : Bool

namespace Transformed

variable {α β : Type}

def no (data : α) : Transformed α := ⟨data, false⟩

def yes (data : α) : Transformed α := ⟨data, true⟩

def map (f : α → β) (t : Transformed α) : Transformed β := ⟨f t.data, t.transformed⟩

@[simp] theorem data_no (a : α) : (no a).data = a := rfl
@[simp] theorem data_yes (a : α) : (yes a).data = a := rfl
@[simp] theorem data_map (f : α → β) (t : Transformed α) : (t.map f).data = f t.data := rfl

end Transformed

/-- The planning error of a predicate whose type over an input is known not to be boolean. -/
abbrev PredicateTyping := Expr → LogicalPlan → Option String

/-- A predicate has one type over a scan, whatever the scan itself filters by: the type depends on the
scan's columns. -/
def PredicateTyping.IgnoresFilters (T : PredicateTyping) : Prop :=
  ∀ predicate t projection filters filters' fetch,
    T predicate (.tableScan t projection filters fetch) = T predicate (.tableScan t projection filters' fetch)

/-- `Filter::try_new`. -/
def filterTryNew (T : PredicateTyping) (predicate : Expr) (input : LogicalPlan) :
    Except DataFusionError LogicalPlan :=
  match T predicate input with
  | some message => .error (.plan message)
  | none => .ok (.filter predicate.unaliasNested input)

/-- The schema of a projection of expressions over an input, if they have one together. -/
abbrev ProjectionSchema := List Expr → LogicalPlan → Except DataFusionError (List Column)

/-- `Projection::try_new`. -/
def projectionTryNew (S : ProjectionSchema) (expr : List Expr) (input : LogicalPlan) :
    Except DataFusionError LogicalPlan := do
  let schema ← S expr input
  return .projection expr input schema

/-- `TreeNodeRecursion`: whether the walk goes on into a node's inputs or jumps over them. -/
inductive TreeNodeRecursion
  | cont
  | jump
  deriving DecidableEq, Repr

/-- What a rewrite does at a node, its expressions' subqueries being rewritten already. It is told
the plan that the walk started from. -/
abbrev Action := (root node : LogicalPlan) →
  Except DataFusionError (Transformed LogicalPlan × TreeNodeRecursion)

namespace LogicalPlan

/-- The node over other inputs, as many as it has. -/
def withNewInputs : LogicalPlan → List LogicalPlan → LogicalPlan
  | tableScan t pr filters fetch, _ => tableScan t pr filters fetch
  | filter predicate input, is => filter predicate (is.headD input)
  | projection expr input schema, is => projection expr (is.headD input) schema
  | subqueryAlias name input, is => subqueryAlias name (is.headD input)
  | node kind detail exprs _ schema, is => node kind detail exprs is schema

/-- The node with other expressions, as many as it has. -/
def withNewExpressions : LogicalPlan → List Expr → LogicalPlan
  | tableScan t pr _ fetch, es => tableScan t pr es fetch
  | filter predicate input, es => filter (es.headD predicate) input
  | projection _ input schema, es => projection es input schema
  | subqueryAlias name input, _ => subqueryAlias name input
  | node kind detail _ inputs schema, es => node kind detail es inputs schema

variable (p : LogicalPlan)

@[simp] theorem withNewExpressions_self : p.withNewExpressions p.expressions = p := by
  cases p <;> rfl

@[simp] theorem withNewInputs_self : p.withNewInputs p.inputs = p := by
  cases p <;> rfl

@[simp] theorem inputs_withNewExpressions (es) : (p.withNewExpressions es).inputs = p.inputs := by
  cases p <;> rfl

theorem expressions_withNewExpressions {p : LogicalPlan} {es}
    (h : es.length = p.expressions.length) : (p.withNewExpressions es).expressions = es := by
  cases p with
  | filter predicate input =>
    obtain ⟨e, rfl⟩ := length_eq_one_iff.mp h
    rfl
  | subqueryAlias name input => exact (length_eq_zero_iff.mp h).symm
  | tableScan | projection | node => rfl

theorem withNewExpressions_twice {es} (es') (h : es'.length = p.expressions.length) :
    (p.withNewExpressions es).withNewExpressions es' = p.withNewExpressions es' := by
  cases p with
  | filter predicate input =>
    obtain ⟨e, rfl⟩ := length_eq_one_iff.mp h
    rfl
  | subqueryAlias | tableScan | projection | node => rfl

@[simp] theorem expressions_withNewInputs (is) :
    (p.withNewInputs is).expressions = p.expressions := by
  cases p <;> rfl

theorem inputs_withNewInputs {p : LogicalPlan} {is} (h : is.length = p.inputs.length) :
    (p.withNewInputs is).inputs = is := by
  cases p with
  | tableScan => exact (length_eq_zero_iff.mp h).symm
  | filter | projection | subqueryAlias =>
    obtain ⟨i, rfl⟩ := length_eq_one_iff.mp h
    rfl
  | node => rfl

theorem withNew_inj {p : LogicalPlan} {es es' is is'}
    (hes : es.length = p.expressions.length) (hes' : es'.length = p.expressions.length)
    (his : is.length = p.inputs.length) (his' : is'.length = p.inputs.length) :
    (p.withNewExpressions es).withNewInputs is = (p.withNewExpressions es').withNewInputs is' ↔
      es = es' ∧ is = is' := by
  refine ⟨fun h => ⟨?_, ?_⟩, fun ⟨hes, his⟩ => by rw [hes, his]⟩
  · have h := congrArg expressions h
    rwa [expressions_withNewInputs, expressions_withNewInputs, expressions_withNewExpressions hes,
      expressions_withNewExpressions hes'] at h
  · have h := congrArg inputs h
    rwa [inputs_withNewInputs (by rwa [inputs_withNewExpressions]),
      inputs_withNewInputs (by rwa [inputs_withNewExpressions])] at h

end LogicalPlan

/-- The end of a visit: over the rewritten inputs, or as it stands after a jump. -/
def settle (subChanged : Bool) (visit : Transformed LogicalPlan × TreeNodeRecursion)
    (inputs : Except DataFusionError (Transformed (List LogicalPlan))) :
    Except DataFusionError (Transformed LogicalPlan) :=
  match visit with
  | (n, .jump) => .ok ⟨n.data, subChanged || n.transformed⟩
  | (n, .cont) => do
    let is ← inputs
    return ⟨n.data.withNewInputs is.data, subChanged || n.transformed || is.transformed⟩

mutual

/-- `transform_down` over a plan, with the descent into expression subqueries at each node. -/
def rewriteTree (act : Action) (root : LogicalPlan) : LogicalPlan → Except DataFusionError (Transformed LogicalPlan)
  | .tableScan t projection filters fetch => do
    let fs ← rewriteExprs act filters
    settle fs.transformed (← act root (.tableScan t projection fs.data fetch)) (.ok (.no []))
  | .filter predicate input => do
    let p ← rewriteExpr act predicate
    settle p.transformed (← act root (.filter p.data input)) do
      let i ← rewriteTree act root input
      return i.map fun i => [i]
  | .projection expr input schema => do
    let es ← rewriteExprs act expr
    settle es.transformed (← act root (.projection es.data input schema)) do
      let i ← rewriteTree act root input
      return i.map fun i => [i]
  | .subqueryAlias name input => do
    settle false (← act root (.subqueryAlias name input)) do
      let i ← rewriteTree act root input
      return i.map fun i => [i]
  | .node kind detail exprs inputs schema => do
    let es ← rewriteExprs act exprs
    settle es.transformed (← act root (.node kind detail es.data inputs schema)) (rewriteTrees act root inputs)

def rewriteTrees (act : Action) (root : LogicalPlan) :
    List LogicalPlan → Except DataFusionError (Transformed (List LogicalPlan))
  | [] => .ok (.no [])
  | p :: ps => do
    let p' ← rewriteTree act root p
    let ps' ← rewriteTrees act root ps
    return ⟨p'.data :: ps'.data, p'.transformed || ps'.transformed⟩

/-- `transform_down` over an expression with `map_subquery_plans`: the plan of a subquery is
rewritten from its own root, its outer reference columns are kept. -/
def rewriteExpr (act : Action) : Expr → Except DataFusionError (Transformed Expr)
  | .scalarSubquery q o => do
    let q' ← rewriteTree act q q
    return q'.map fun q => .scalarSubquery q o
  | .inSubquery e q o neg => do
    let q' ← rewriteTree act q q
    let e' ← rewriteExpr act e
    return ⟨.inSubquery e'.data q'.data o neg, q'.transformed || e'.transformed⟩
  | .setComparison e q o c k => do
    let q' ← rewriteTree act q q
    let e' ← rewriteExpr act e
    return ⟨.setComparison e'.data q'.data o c k, q'.transformed || e'.transformed⟩
  | .existsSubquery q o neg => do
    let q' ← rewriteTree act q q
    return q'.map fun q => .existsSubquery q o neg
  | .aliasExpr e r n => do
    let e' ← rewriteExpr act e
    return e'.map fun e => .aliasExpr e r n
  | .op h args => do
    let args' ← rewriteExprs act args
    return args'.map fun args => .op h args
  | .column c => .ok (.no (.column c))
  | .outerReferenceColumn c => .ok (.no (.outerReferenceColumn c))
  | .literal v => .ok (.no (.literal v))

def rewriteExprs (act : Action) : List Expr → Except DataFusionError (Transformed (List Expr))
  | [] => .ok (.no [])
  | e :: es => do
    let e' ← rewriteExpr act e
    let es' ← rewriteExprs act es
    return ⟨e'.data :: es'.data, e'.transformed || es'.transformed⟩

end

/-! ## The loops -/

section Loop

variable {α β : Type} {act : Action}

/-- The loop that all of them are: each element is rewritten, and a change of one is a change. -/
def mapLoop (f : α → Except DataFusionError (Transformed β)) : List α → Except DataFusionError (Transformed (List β))
  | [] => .ok (.no [])
  | x :: xs => do
    let t ← f x
    let ts ← mapLoop f xs
    return ⟨t.data :: ts.data, t.transformed || ts.transformed⟩

theorem rewriteTrees_eq_mapLoop {root} (ps) : rewriteTrees act root ps = mapLoop (rewriteTree act root) ps := by
  induction ps with
  | nil => rfl
  | cons p ps ih => rw [rewriteTrees, mapLoop, ih]

theorem rewriteExprs_eq_mapLoop (es) : rewriteExprs act es = mapLoop (rewriteExpr act) es := by
  induction es with
  | nil => rfl
  | cons e es ih => rw [rewriteExprs, mapLoop, ih]

variable {f : α → Except DataFusionError (Transformed β)}

theorem mapLoop_ok_iff : ∀ {xs t}, mapLoop f xs = .ok t ↔
    ∃ ts, Forall₂ (fun x t => f x = .ok t) xs ts ∧ t = ⟨ts.map (·.data), ts.any (·.transformed)⟩
  | [], t => by simp [mapLoop, Transformed.no, eq_comm]
  | x :: xs, t => by
    simp only [mapLoop, bind_ok_iff, pure_ok_iff, @mapLoop_ok_iff xs, forall₂_cons_left_iff]
    constructor
    · rintro ⟨t₁, h₁, _, ⟨ts, hts, rfl⟩, rfl⟩
      exact ⟨t₁ :: ts, ⟨t₁, ts, h₁, hts, rfl⟩, rfl⟩
    · rintro ⟨_, ⟨t₁, ts, h₁, hts, rfl⟩, rfl⟩
      exact ⟨t₁, h₁, _, ⟨ts, hts, rfl⟩, rfl⟩

theorem exists_mapLoop_iff : ∀ {xs}, (∃ t, mapLoop f xs = .ok t) ↔ ∀ x ∈ xs, ∃ t, f x = .ok t
  | [] => by simp [mapLoop]
  | x :: xs => by
    simp only [mapLoop, exists_bind_ok_iff, pure_ok_iff, exists_eq', and_true, exists_and_right,
      @exists_mapLoop_iff xs, forall_mem_cons]

variable {t : Transformed (List β)} {xs : List α}

theorem mapLoop_data {g}
    (hg : ∀ x ∈ xs, ∀ t, f x = .ok t → t.data = g x) (h : mapLoop f xs = .ok t) : t.data = xs.map g := by
  obtain ⟨ts, hts, rfl⟩ := mapLoop_ok_iff.mp h
  clear h
  induction hts with
  | nil => rfl
  | cons hx _ ih =>
    obtain ⟨hgx, hg⟩ := forall_mem_cons.mp hg
    exact congrArg₂ cons (hgx _ hx) (ih hg)

theorem mapLoop_transformed (h : mapLoop f xs = .ok t) :
    t.transformed = true ↔ ∃ x ∈ xs, ∃ t, f x = .ok t ∧ t.transformed = true := by
  obtain ⟨ts, hts, rfl⟩ := mapLoop_ok_iff.mp h
  clear h
  induction hts with
  | nil => simp
  | cons hx _ ih =>
    simp only [any_cons, Bool.or_eq_true, exists_mem_cons_iff, hx, ok.injEq, exists_eq_left', ih]

theorem mapLoop_mono {f'}
    (hf : ∀ x ∈ xs, ∀ t, f x = .ok t → f' x = .ok t) (h : mapLoop f xs = .ok t) : mapLoop f' xs = .ok t := by
  obtain ⟨ts, hts, rfl⟩ := mapLoop_ok_iff.mp h
  refine mapLoop_ok_iff.mpr ⟨ts, ?_, rfl⟩
  exact ((forall₂_and_left xs ts).mpr ⟨fun _ => id, hts⟩).imp fun x t hx => hf x hx.1 t hx.2

end Loop

/-! ## One step -/

section Step

variable {act : Action} {root : LogicalPlan}

theorem rewriteTrees_singleton (p) :
    rewriteTrees act root [p] = (do let i ← rewriteTree act root p; return i.map fun i => [i]) := by
  simp only [rewriteTrees]
  cases rewriteTree act root p with
  | error => rfl
  | ok r => simp [bind, Except.bind, pure, Except.pure, Transformed.map, Transformed.no]

theorem rewriteExprs_singleton (e) :
    rewriteExprs act [e] = (do let e' ← rewriteExpr act e; return e'.map fun e => [e]) := by
  simp only [rewriteExprs]
  cases rewriteExpr act e with
  | error => rfl
  | ok r => simp [bind, Except.bind, pure, Except.pure, Transformed.map, Transformed.no]

theorem rewriteTree_eq (p) : rewriteTree act root p = (do
    let es ← rewriteExprs act p.expressions
    settle es.transformed (← act root (p.withNewExpressions es.data)) (rewriteTrees act root p.inputs)) := by
  cases p with
  | tableScan t pr fs ft =>
    rw [rewriteTree]
    rfl
  | filter e i =>
    rw [rewriteTree]
    simp only [LogicalPlan.expressions, LogicalPlan.inputs, rewriteTrees_singleton, rewriteExprs_singleton, bind_assoc,
      pure_bind]
    rfl
  | projection es i s =>
    rw [rewriteTree]
    simp only [LogicalPlan.expressions, LogicalPlan.inputs, rewriteTrees_singleton]
    rfl
  | subqueryAlias n i =>
    rw [rewriteTree]
    simp only [LogicalPlan.expressions, LogicalPlan.inputs, rewriteTrees_singleton]
    rfl
  | node k d es is s =>
    rw [rewriteTree]
    rfl

end Step

/-! ## What a rewrite gives -/

theorem filterTryNew_ok {T p i r} (h : filterTryNew T p i = .ok r) : r = .filter p.unaliasNested i := by
  unfold filterTryNew at h
  split at h
  · cases h
  · exact (ok.inj h).symm

theorem filterTryNew_ok_iff {T p i} : (∃ r, filterTryNew T p i = .ok r) ↔ T p i = none := by
  unfold filterTryNew
  split <;> simp [*]

theorem settle_ok {subChanged v inputs r} (h : settle subChanged v inputs = .ok r) :
    (v.2 = .jump ∧ r.data = v.1.data) ∨
      (v.2 = .cont ∧ ∃ is, inputs = .ok is ∧ r.data = v.1.data.withNewInputs is.data) := by
  obtain ⟨n, tnr⟩ := v
  cases tnr with
  | jump =>
    cases h
    exact .inl ⟨rfl, rfl⟩
  | cont =>
    simp only [settle, bind_ok_iff, pure_ok_iff] at h
    obtain ⟨is, his, rfl⟩ := h
    exact .inr ⟨rfl, is, his, rfl⟩

/-- What a rewrite makes of a plan, or the plan where it fails. -/
def rewritten (act : Action) (root p : LogicalPlan) : LogicalPlan :=
  match rewriteTree act root p with
  | .ok r => r.data
  | .error _ => p

/-- An expression with each embedded plan rewritten from its own root. -/
def descended (act : Action) (e : Expr) : Expr := e.mapSubqueries fun q => rewritten act q q

section Data

variable {act : Action} {root : LogicalPlan}

theorem rewritten_of_ok {p r} (h : rewriteTree act root p = .ok r) : r.data = rewritten act root p := by
  rw [rewritten, h]

/-- Of an expression the embedded plans are rewritten, and a change of one is a change. -/
theorem rewriteExpr_spec : ∀ {e r}, rewriteExpr act e = .ok r → r.data = descended act e ∧
      (r.transformed = true ↔ ∃ q, e.Embeds q ∧ ∃ r, rewriteTree act q q = .ok r ∧ r.transformed = true)
  | .scalarSubquery q _, r, h | .existsSubquery q _ _, r, h => by
    simp only [rewriteExpr, bind_ok_iff, pure_ok_iff] at h
    obtain ⟨q', hq, rfl⟩ := h
    simp [Transformed.map, descended, mapSubqueries, rewritten_of_ok hq, hq]
  | .inSubquery e q _ _, r, h | .setComparison e q _ _ _, r, h => by
    simp only [rewriteExpr, bind_ok_iff, pure_ok_iff] at h
    obtain ⟨q', hq, e', he, rfl⟩ := h
    obtain ⟨hd, hf⟩ := rewriteExpr_spec he
    rw [descended] at hd
    simp [descended, mapSubqueries, rewritten_of_ok hq, hd, hf, hq, or_and_right, exists_or]
  | .aliasExpr e _ _, r, h => by
    simp only [rewriteExpr, bind_ok_iff, pure_ok_iff] at h
    obtain ⟨e', he, rfl⟩ := h
    obtain ⟨hd, hf⟩ := rewriteExpr_spec he
    rw [descended] at hd
    simp [Transformed.map, descended, mapSubqueries, hd, hf]
  | .op _ args, r, h => by
    simp only [rewriteExpr, bind_ok_iff, pure_ok_iff, rewriteExprs_eq_mapLoop] at h
    obtain ⟨args', ha, rfl⟩ := h
    refine ⟨?_, (mapLoop_transformed ha).trans ?_⟩
    · rw [Transformed.data_map, mapLoop_data (fun e _ t ht => (rewriteExpr_spec ht).1) ha, descended, mapSubqueries,
        mapSubqueriesList_eq_map]
      rfl
    · constructor
      · rintro ⟨e, he, t, ht, hf⟩
        obtain ⟨q, hq, hr⟩ := (rewriteExpr_spec ht).2.mp hf
        exact ⟨q, embeds_op.mpr ⟨e, he, hq⟩, hr⟩
      · rintro ⟨q, hq, hr⟩
        obtain ⟨e, he, hq⟩ := embeds_op.mp hq
        obtain ⟨t, ht⟩ := exists_mapLoop_iff.mp ⟨_, ha⟩ e he
        exact ⟨e, he, t, ht, (rewriteExpr_spec ht).2.mpr ⟨q, hq, hr⟩⟩
  | .column _, r, h | .outerReferenceColumn _, r, h | .literal _, r, h => by
    cases h
    simp [Transformed.no, descended, mapSubqueries]

theorem rewriteExprs_descended {es r} (h : rewriteExprs act es = .ok r) : r.data = es.map (descended act) := by
  rw [rewriteExprs_eq_mapLoop] at h
  exact mapLoop_data (fun e _ t ht => (rewriteExpr_spec ht).1) h

theorem rewriteTrees_data {f ps r}
    (hf : ∀ p ∈ ps, ∀ r, rewriteTree act root p = .ok r → r.data = f p) (h : rewriteTrees act root ps = .ok r) :
    r.data = ps.map f :=
  mapLoop_data hf (rewriteTrees_eq_mapLoop ps ▸ h)

end Data

/-! ## When a rewrite succeeds -/

section Ok

variable {act : Action}

theorem settle_ok_iff {subChanged v inputs} :
    (∃ r, settle subChanged v inputs = .ok r) ↔ (v.2 = .cont → ∃ is, inputs = .ok is) := by
  obtain ⟨n, tnr⟩ := v
  cases tnr with
  | jump => simp [settle]
  | cont => simp only [settle, exists_bind_ok_iff, pure_ok_iff, exists_eq', and_true, true_imp_iff]

theorem rewriteExpr_ok_iff : ∀ {e},
    (∃ r, rewriteExpr act e = .ok r) ↔ ∀ q, e.Embeds q → ∃ r, rewriteTree act q q = .ok r
  | .scalarSubquery q _ | .existsSubquery q _ _ => by
    simp only [rewriteExpr, exists_bind_ok_iff, pure_ok_iff, exists_eq', and_true]
    simp
  | .op _ args => by
    simp only [rewriteExpr, exists_bind_ok_iff, pure_ok_iff, exists_eq', and_true,
      rewriteExprs_eq_mapLoop, exists_mapLoop_iff, embeds_op]
    rw [forall₂_congr fun e _ => @rewriteExpr_ok_iff e]
    exact ⟨fun h q hq => hq.elim fun e he => h e he.1 q he.2, fun h e he q hq => h q ⟨e, he, hq⟩⟩
  | .aliasExpr e _ _ => by
    simp only [rewriteExpr, exists_bind_ok_iff, pure_ok_iff, exists_eq', and_true,
      @rewriteExpr_ok_iff e, embeds_aliasExpr]
  | .inSubquery e q _ _ | .setComparison e q _ _ _ => by
    simp only [rewriteExpr, exists_bind_ok_iff, pure_ok_iff, exists_eq', and_true,
      exists_and_right, @rewriteExpr_ok_iff e]
    simp [or_imp, forall_and]
  | .column _ | .outerReferenceColumn _ | .literal _ => by simp [rewriteExpr]

theorem rewriteExprs_ok_iff {es} :
    (∃ r, rewriteExprs act es = .ok r) ↔ ∀ e ∈ es, ∀ q, e.Embeds q → ∃ r, rewriteTree act q q = .ok r := by
  simp only [rewriteExprs_eq_mapLoop, exists_mapLoop_iff, rewriteExpr_ok_iff]

theorem rewriteTrees_ok_iff {root ps} :
    (∃ r, rewriteTrees act root ps = .ok r) ↔ ∀ p ∈ ps, ∃ r, rewriteTree act root p = .ok r := by
  rw [rewriteTrees_eq_mapLoop, exists_mapLoop_iff]

theorem rewriteExprs_data {f es r} (hf : ∀ e ∈ es, ∀ q, e.Embeds q → ∀ r, rewriteTree act q q = .ok r → r.data = f q)
    (h : rewriteExprs act es = .ok r) : r.data = mapSubqueriesList f es := by
  rw [rewriteExprs_descended h, mapSubqueriesList_eq_map]
  refine map_congr_left fun e he => mapSubqueries_eq_iff.mpr fun q hq => ?_
  obtain ⟨t, ht⟩ := rewriteExprs_ok_iff.mp ⟨r, h⟩ e he q hq
  rw [← rewritten_of_ok ht, hf e he q hq t ht]

end Ok

/-! ## An action that succeeds more often -/

section Mono

variable {act act' : Action}

theorem settle_mono {subChanged v inputs inputs' r}
    (hi : ∀ is, inputs = .ok is → inputs' = .ok is) (h : settle subChanged v inputs = .ok r) :
    settle subChanged v inputs' = .ok r := by
  obtain ⟨n, tnr⟩ := v
  cases tnr with
  | jump => exact h
  | cont =>
    simp only [settle, bind_ok_iff] at h ⊢
    obtain ⟨is, his, h⟩ := h
    exact ⟨is, hi is his, h⟩

theorem rewriteExpr_mono {e r}
    (hm : ∀ q, e.Embeds q → ∀ r, rewriteTree act q q = .ok r → rewriteTree act' q q = .ok r)
    (h : rewriteExpr act e = .ok r) : rewriteExpr act' e = .ok r := by
  have hs : ∀ q, e.Embeds q → rewriteTree act' q q = rewriteTree act q q := by
    intro q hq
    obtain ⟨t, ht⟩ := rewriteExpr_ok_iff.mp ⟨r, h⟩ q hq
    rw [ht, hm q hq t ht]
  obtain ⟨⟨data, flag⟩, h'⟩ : ∃ r', rewriteExpr act' e = .ok r' :=
    rewriteExpr_ok_iff.mpr fun q hq => hs q hq ▸ rewriteExpr_ok_iff.mp ⟨r, h⟩ q hq
  obtain ⟨hda, hfl⟩ := rewriteExpr_spec h
  obtain ⟨hd', hf'⟩ := rewriteExpr_spec h'
  dsimp only at hd' hf'
  have hd : data = r.data := by
    rw [hda, hd', descended, descended, mapSubqueries_eq_iff]
    exact fun q hq => by rw [rewritten, rewritten, hs q hq]
  have hf : flag = r.transformed := by
    rw [Bool.eq_iff_iff, hfl, hf']
    exact exists_congr fun q => and_congr_right fun hq => by rw [hs q hq]
  rw [h', hd, hf]

theorem rewriteTree_mono (h : ∀ root node v, act root node = .ok v → act' root node = .ok v) (p) :
    ∀ root r, rewriteTree act root p = .ok r → rewriteTree act' root p = .ok r := by
  refine LogicalPlan.induct ?_ p
  intro p hin hex root r hr
  rw [rewriteTree_eq] at hr ⊢
  simp only [bind_ok_iff] at hr ⊢
  obtain ⟨es, hes, v, hv, hr⟩ := hr
  rw [rewriteExprs_eq_mapLoop] at hes ⊢
  simp only [rewriteTrees_eq_mapLoop] at hr ⊢
  refine ⟨es, mapLoop_mono (fun e he t => rewriteExpr_mono fun q hq => hex e he q hq q) hes, v, h _ _ _ hv, ?_⟩
  exact settle_mono (fun is => mapLoop_mono fun i hi => hin i hi root) hr

end Mono

end DataFusion
