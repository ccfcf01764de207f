/-
How far the values of some columns get in a query.

Two databases that differ only in the values of secret columns are run through
one plan. The fields of a row that may differ are known from the plan: a scan's
secret fields, under whatever name they go by until an operator computes new
fields. If no operator reads such a field, both runs take the same course and
their rows agree elsewhere.
-/
import Dataglot.DataFusion.Eval
import Dataglot.DataFusion.Scope
import Dataglot.DataFusion.Transform

namespace DataFusion
open LogicalPlan List

/-! ## What an expression reads -/

/-- Something an expression takes a value from: a field of its row, one of the rows around it, the rows of a
subquery, or whether a subquery has a row. -/
inductive Source
  | column (c : Column)
  | outer (c : Column)
  | values (q : LogicalPlan)
  | existence (q : LogicalPlan)

namespace Expr

mutual

def sources : Expr → List Source
  | column c => [.column c]
  | outerReferenceColumn c => [.outer c]
  | literal _ => []
  | aliasExpr e _ _ => sources e
  | op _ args => sourcesList args
  | scalarSubquery q _ => [.values q]
  | inSubquery e q _ _ => .values q :: sources e
  | setComparison e q _ _ _ => .values q :: sources e
  | existsSubquery q _ _ => [.existence q]

def sourcesList : List Expr → List Source
  | [] => []
  | e :: es => sources e ++ sourcesList es

end

theorem sourcesList_eq_flatMap (es) : sourcesList es = es.flatMap sources := by
  induction es with
  | nil => rfl
  | cons e es ih => rw [sourcesList, ih, flatMap_cons]

end Expr

namespace Source

/-- What an expression reads in place of a column that is replaced. -/
def substituted (σ : Column → Expr) : Source → List Source
  | column c => (σ c).sources
  | s => [s]

def mapPlan (f : LogicalPlan → LogicalPlan) : Source → Source
  | values q => values (f q)
  | existence q => existence (f q)
  | s => s

end Source

namespace Expr

theorem sources_substColumns {σ} : ∀ e : Expr, (e.substColumns σ).sources = e.sources.flatMap (Source.substituted σ)
  | aliasExpr e _ _ => by rw [substColumns, sources, sources, sources_substColumns e]
  | op _ args => by
    simp only [substColumns, sources, sourcesList_eq_flatMap, substColumnsList_eq_map, flatMap_map, flatMap_assoc]
    exact flatMap_congr fun e _ => sources_substColumns e
  | inSubquery e _ _ _ | setComparison e _ _ _ _ => by
    rw [substColumns, sources, sources, sources_substColumns e, flatMap_cons]
    rfl
  | column _ | outerReferenceColumn _ | literal _ | scalarSubquery _ _ | existsSubquery _ _ _ => by
    simp [substColumns, sources, Source.substituted]

theorem sources_mapSubqueries {f} : ∀ e : Expr, (e.mapSubqueries f).sources = e.sources.map (Source.mapPlan f)
  | aliasExpr e _ _ => by rw [mapSubqueries, sources, sources, sources_mapSubqueries e]
  | op _ args => by
    simp only [mapSubqueries, sources, sourcesList_eq_flatMap, mapSubqueriesList_eq_map, flatMap_map, map_flatMap]
    exact flatMap_congr fun e _ => sources_mapSubqueries e
  | inSubquery e _ _ _ | setComparison e _ _ _ _ => by
    rw [mapSubqueries, sources, sources, sources_mapSubqueries e, map_cons]
    rfl
  | column _ | outerReferenceColumn _ | literal _ | scalarSubquery _ _ | existsSubquery _ _ _ => by
    simp [mapSubqueries, sources, Source.mapPlan]

theorem embeds_iff_mem_sources {q} : ∀ {e : Expr}, e.Embeds q ↔ .values q ∈ e.sources ∨ .existence q ∈ e.sources
  | column _ | outerReferenceColumn _ | literal _ => by simp [sources]
  | scalarSubquery _ _ | existsSubquery _ _ _ => by simp [sources, eq_comm]
  | aliasExpr e _ _ => by
    rw [sources, ← @embeds_iff_mem_sources q e]
    simp
  | inSubquery e _ _ _ | setComparison e _ _ _ _ => by
    have ih := @embeds_iff_mem_sources q e
    simp [sources, ih, or_assoc, eq_comm]
  | op _ args => by
    simp only [embeds_op, sources, sourcesList_eq_flatMap, mem_flatMap, ← exists_or, ← and_or_left]
    exact exists_congr fun e => and_congr_right fun _ => embeds_iff_mem_sources

theorem column_mem_sources {c} : ∀ {e : Expr}, .column c ∈ e.sources ↔ .column c ∈ e.nodes
  | column _ | outerReferenceColumn _ | literal _ | scalarSubquery _ _ | existsSubquery _ _ _ => by
    simp [sources, nodes]
  | aliasExpr e _ _ | inSubquery e _ _ _ | setComparison e _ _ _ _ => by
    simp [sources, nodes, @column_mem_sources c e]
  | op _ args => by
    simp only [sources, nodes, sourcesList_eq_flatMap, nodesList_eq_flatMap, mem_cons, reduceCtorEq, false_or,
      mem_flatMap]
    exact exists_congr fun e => and_congr_right fun _ => column_mem_sources

end Expr

section Runs

variable {V : Type} {I : Interp V} {db db' : Database V}

/-- Both runs take the same value from the source. -/
def Source.Same (I : Interp V) (db db' : Database V) (outer outer' row row' : Row V) : Source → Prop
  | .column c => row.get I.null c = row'.get I.null c
  | .outer c => outer.get I.null c = outer'.get I.null c
  | .values q => (evalPlan I db keepAll (row ++ outer) q).map Row.values =
      (evalPlan I db' keepAll (row' ++ outer') q).map Row.values
  | .existence q => (evalPlan I db keepAll (row ++ outer) q).isEmpty = (evalPlan I db' keepAll (row' ++ outer') q).isEmpty

section Congruence

variable {outer outer' row row' : Row V}

theorem evalExpr_congr : ∀ {e}, (∀ s ∈ e.sources, s.Same I db db' outer outer' row row') →
    evalExpr I db keepAll outer row e = evalExpr I db' keepAll outer' row' e
  | .column c, h => h _ (mem_singleton_self _)
  | .outerReferenceColumn c, h => h _ (mem_singleton_self _)
  | .literal _, _ => rfl
  | .aliasExpr e _ _, h => by rw [evalExpr, evalExpr, @evalExpr_congr e h]
  | .op _ args, h => by
    rw [evalExpr, evalExpr, evalExprs_eq_map, evalExprs_eq_map]
    rw [Expr.sources, Expr.sourcesList_eq_flatMap] at h
    exact congrArg _ (map_congr_left fun e he => evalExpr_congr fun s hs => h s (mem_flatMap_of_mem he hs))
  | .scalarSubquery q _, h => by
    have hq : Source.Same I db db' outer outer' row row' (.values q) := h _ (mem_singleton_self _)
    rw [evalExpr, evalExpr, hq]
  | .inSubquery e q _ _, h | .setComparison e q _ _ _, h => by
    have hq : Source.Same I db db' outer outer' row row' (.values q) := h _ mem_cons_self
    rw [evalExpr, evalExpr, hq, @evalExpr_congr e fun s hs => h s (mem_cons_of_mem _ hs)]
  | .existsSubquery q _ _, h => by
    have hq : Source.Same I db db' outer outer' row row' (.existence q) := h _ (mem_singleton_self _)
    rw [evalExpr, evalExpr, hq]

end Congruence

/-! ## Rows that agree -/

theorem forall₂_at_place {α β : Type} {R} {l : List α} {l' : List β} (h : Forall₂ R l l') (i : Nat) :
    (l[i]? = none ∧ l'[i]? = none) ∨ ∃ a b, l[i]? = some a ∧ l'[i]? = some b ∧ R a b := by
  induction h generalizing i with
  | nil => exact .inl ⟨rfl, rfl⟩
  | cons hr _ ih =>
    cases i with
    | zero => exact .inr ⟨_, _, rfl, rfl, hr⟩
    | succ i => simpa using ih i

/-- The rows have the same fields, with the same values outside `hot`. -/
def Agrees (hot : Set Column) (r r' : Row V) : Prop :=
  List.Forall₂ (fun f f' => f.1 = f'.1 ∧ (f.1 ∉ hot → f.2 = f'.2)) r r'

def Column.Misses (c : Column) (fields : Set Column) : Prop := ∀ f ∈ fields, c.refersTo f = false

namespace Agrees

variable {hot hot' : Set Column} {r r' s s' : Row V}

theorem refl (hot : Set Column) (r : Row V) : Agrees hot r r := forall₂_same.mpr fun _ _ => ⟨rfl, fun _ => rfl⟩

theorem mono (h : Agrees hot r r') (hs : hot ⊆ hot') : Agrees hot' r r' :=
  Forall₂.imp (fun _ _ hf => ⟨hf.1, fun hn => hf.2 fun hm => hn (hs hm)⟩) h

theorem append (h : Agrees hot r r') (hs : Agrees hot s s') : Agrees hot (r ++ s) (r' ++ s') :=
  rel_append h hs

theorem eq (h : Agrees ∅ r r') : r = r' := by
  refine forall₂_eq_eq_eq ▸ Forall₂.imp (fun f f' hf => ?_) h
  exact Prod.ext hf.1 (hf.2 (Set.notMem_empty _))

theorem get_eq (h : Agrees hot r r') (null) {c} (hc : c.Misses hot) : r.get null c = r'.get null c := by
  induction h with
  | nil => rfl
  | @cons f f' r r' hf _ ih =>
    unfold Row.get at ih ⊢
    rw [find?_cons, find?_cons, ← hf.1]
    cases hfo : c.refersTo f.1 with
    | false => exact ih
    | true =>
      have hco : f.1 ∉ hot := fun hm => Bool.false_ne_true ((hc _ hm).symm.trans hfo)
      simp [hf.2 hco]

theorem aliased (h : Agrees hot r r') (name) :
    Agrees ((fun f => ⟨some name, f.name⟩) '' hot) (r.aliased name) (r'.aliased name) := by
  refine forall₂_map_left_iff.mpr (forall₂_map_right_iff.mpr (Forall₂.imp (fun f f' hf => ?_) h))
  refine ⟨by rw [hf.1], fun hn => hf.2 fun hm => hn ⟨_, hm, rfl⟩⟩

theorem pick (h : Agrees hot r r') (places : List Nat) :
    Agrees hot (places.filterMap fun i => r[i]?) (places.filterMap fun i => r'[i]?) := by
  induction places with
  | nil => exact .nil
  | cons i places ih =>
    rcases forall₂_at_place h i with ⟨hr, hr'⟩ | ⟨f, f', hr, hr', hf⟩
    · simpa [hr, hr'] using ih
    · simp only [filterMap_cons, hr, hr']
      exact .cons hf ih

end Agrees

/-- The same rows in the same order, each the same outside `hot`. -/
abbrev RowsAgree (hot : Set Column) : List (Row V) → List (Row V) → Prop := List.Forall₂ (Agrees hot)

namespace RowsAgree

variable {hot hot' : Set Column} {rows rows' : List (Row V)}

theorem refl (hot : Set Column) (rows : List (Row V)) : RowsAgree hot rows rows :=
  forall₂_same.mpr fun r _ => .refl hot r

theorem mono (h : RowsAgree hot rows rows') (hs : hot ⊆ hot') : RowsAgree hot' rows rows' :=
  Forall₂.imp (fun _ _ hr => hr.mono hs) h

theorem eq (h : RowsAgree ∅ rows rows') : rows = rows' :=
  forall₂_eq_eq_eq ▸ Forall₂.imp (fun _ _ hr => hr.eq) h

theorem map_eq {α : Type} (h : RowsAgree hot rows rows') {f g : Row V → α}
    (hfg : ∀ r r', Agrees hot r r' → f r = g r') : rows.map f = rows'.map g := by
  refine forall₂_eq_eq_eq ▸ forall₂_map_left_iff.mpr (forall₂_map_right_iff.mpr ?_)
  exact Forall₂.imp hfg h

theorem map (h : RowsAgree hot rows rows') {f g : Row V → Row V}
    (hfg : ∀ r r', Agrees hot r r' → Agrees hot' (f r) (g r')) : RowsAgree hot' (rows.map f) (rows'.map g) :=
  rel_map (fun _ _ hr => hfg _ _ hr) h

theorem filter (h : RowsAgree hot rows rows') {f g} (hfg : ∀ r r', Agrees hot r r' → f r = g r') :
    RowsAgree hot (rows.filter f) (rows'.filter g) :=
  rel_filter (fun r r' hr => iff_of_eq (congrArg (· = true) (hfg r r' hr))) h

end RowsAgree

/-- Whether rows of the inputs go on to the output. -/
def Shape.carries : Shape → Bool
  | pass | merge => true
  | emit | whole => false

/-- Whether a node of the kind uses all of its input rows, and not only the values of its expressions. -/
def NodeKind.wholeRows (kind : NodeKind) (inputs : Nat) : Bool :=
  match kind.shape, inputs with
  | .emit, 0 | .emit, 1 | .pass, 1 | .merge, 2 => false
  | _, _ => true

def LogicalPlan.wholeRows : LogicalPlan → Bool
  | .node kind _ _ inputs _ => kind.wholeRows inputs.length
  | _ => false

/-- The databases have the same tables and rows, with the same values outside the secret columns. -/
def DiffersOnly (secret : TableReference → String → Prop) (db db' : Database V) : Prop :=
  ∀ t, List.Forall₂ (List.Forall₂ fun f f' => f.1 = f'.1 ∧ (¬ secret t f.1 → f.2 = f'.2)) (db t) (db' t)

/-- The fields of a scan that hold secret columns. -/
def secretFields (secret : TableReference → String → Prop) (t : TableReference) : Set Column :=
  {f | f.relation = some t ∧ secret t f.name}

/-! ### Operators on rows that agree -/

section Operators

variable {hot : Set Column} {values values' : Row V → List V} {left left' right right' rows rows' : List (Row V)}

theorem passRows_agrees (hv : ∀ r r', Agrees hot r r' → values r = values' r') (h : RowsAgree hot rows rows')
    (kind) (detail) (schema) :
    RowsAgree hot (I.passRows kind detail schema values rows) (I.passRows kind detail schema values' rows') := by
  unfold Interp.passRows
  rw [h.map_eq hv]
  -- the same places on both sides, with the same values added
  induction I.pass kind detail (rows'.map values') with
  | nil => exact .nil
  | cons pick picks ih =>
    obtain ⟨i, added⟩ := pick
    rcases forall₂_at_place h i with ⟨hr, hr'⟩ | ⟨r, r', hr, hr', ha⟩
    · simpa [hr, hr'] using ih
    · simpa [hr, hr'] using ⟨ha.append (.refl hot _), ih⟩

theorem mergeRows_agrees (hv : ∀ r r', Agrees hot r r' → values r = values' r') (hl : RowsAgree hot left left')
    (hr : RowsAgree hot right right') (detail) :
    RowsAgree hot (I.mergeRows detail values left right) (I.mergeRows detail values' left' right') := by
  have hs : ∀ {rows rows' : List (Row V)}, RowsAgree hot rows rows' → ∀ i : Option Nat,
      Agrees hot ((i.bind fun i => rows[i]?).getD []) ((i.bind fun i => rows'[i]?).getD []) := by
    intro rows rows' h i
    cases i with
    | none => exact .refl hot []
    | some i =>
      rcases forall₂_at_place h i with ⟨hr, hr'⟩ | ⟨r, r', hr, hr', ha⟩
      · simpa [hr, hr'] using .refl hot []
      · simpa [hr, hr'] using ha
  have hp := fun i j => (hs hl i).append (hs hr j)
  unfold Interp.mergeRows
  simp only [hl.length_eq, hr.length_eq, hv _ _ (hp _ _)]
  exact rel_map (R := Eq) (fun x y hxy => hxy ▸ hp x.1 x.2) (forall₂_eq_eq_eq ▸ rfl)

theorem scanRows_agrees {secret t passes passes'}
    (hdb : DiffersOnly secret db db') (hp : ∀ r r', Agrees (secretFields secret t) r r' → passes r = passes' r')
    (projection) (fetch) :
    RowsAgree (secretFields secret t) (scanRows db t projection fetch passes)
    (scanRows db' t projection fetch passes') := by
  have hre : RowsAgree (secretFields secret t) ((db t).map fun r => r.map fun f => (⟨some t, f.1⟩, f.2))
      ((db' t).map fun r => r.map fun f => (⟨some t, f.1⟩, f.2)) := by
    refine rel_map (fun r r' hr => rel_map (fun f f' hf => ?_) hr) (hdb t)
    exact ⟨by rw [hf.1], fun hn => hf.2 fun hs => hn ⟨rfl, hs⟩⟩
  have hf := hre.filter hp
  unfold scanRows
  cases projection with
  | none =>
    have hc := hf.map (f := id) (g := id) fun r r' hr => hr
    cases fetch with
    | none => exact hc
    | some n => exact forall₂_take n hc
  | some is =>
    have hc := hf.map fun r r' hr => hr.pick is
    cases fetch with
    | none => exact hc
    | some n => exact forall₂_take n hc

theorem nodeRows_agrees {inputs inputs' : List (List (Row V))}
    (hv : ∀ r r', Agrees hot r r' → values r = values' r') (h : Forall₂ (RowsAgree hot) inputs inputs')
    (kind : NodeKind) (detail) (schema) (hwh : kind.wholeRows inputs.length → hot = ∅) :
    RowsAgree (if kind.shape.carries then hot else ∅) (I.nodeRows kind detail schema values inputs)
      (I.nodeRows kind detail schema values' inputs') := by
  by_cases hw : kind.wholeRows inputs.length
  · obtain rfl := hwh hw
    obtain rfl : values = values' := funext fun r => hv r r (.refl ∅ r)
    obtain rfl : inputs = inputs' := forall₂_eq_eq_eq ▸ Forall₂.imp (fun _ _ hr => hr.eq) h
    exact .refl _ _
  · unfold NodeKind.wholeRows at hw
    unfold Interp.nodeRows
    cases hs : kind.shape with
    | emit =>
      rcases h with _ | ⟨hro, _ | ⟨-, -⟩⟩
      · have he := hv [] [] (.refl hot [])
        simp only [Interp.emitRows, map_cons, map_nil, he]
        exact .refl _ _
      · simp only [Interp.emitRows, hro.map_eq hv]
        exact .refl _ _
      · simp [hs] at hw
    | pass =>
      rcases h with _ | ⟨hro, _ | ⟨-, -⟩⟩
      · simp [hs] at hw
      · exact passRows_agrees hv hro kind detail schema
      · simp [hs] at hw
    | merge =>
      rcases h with _ | ⟨hl, _ | ⟨hr, _ | ⟨-, -⟩⟩⟩
      · simp [hs] at hw
      · simp [hs] at hw
      · exact mergeRows_agrees hv hl hr detail
      · simp [hs] at hw
    | whole => simp [hs] at hw

end Operators

/-! ## Secrets in a plan -/

section Raw

variable (secret : TableReference → String → Prop)

mutual

/-- The fields of a plan's rows that still hold secret columns: those of its scans, until an operator computes
its rows anew. -/
def raw : LogicalPlan → Set Column
  | .tableScan t _ _ _ => secretFields secret t
  | .subqueryAlias name input => (fun f => ⟨some name, f.name⟩) '' raw input
  | .filter _ input => raw input
  | .projection _ _ _ => ∅
  | .node kind _ _ inputs _ => if kind.shape.carries then rawList inputs else ∅

def rawList : List LogicalPlan → Set Column
  | [] => ∅
  | p :: ps => raw p ∪ rawList ps

end

/-- The secret fields among those that a node's expressions see. -/
def rawSeen : LogicalPlan → Set Column
  | .tableScan t _ _ _ => secretFields secret t
  | p => rawList secret p.inputs

/-- Nothing secret is taken from the source: it is no secret field, or one that is answered otherwise; a
subquery's rows hold none. -/
def Source.Sealed (own around : Set Column) (answered : Column → Prop) : Source → Prop
  | .column c => c.Misses own ∨ answered c
  | .outer c => c.Misses around
  | .values q => raw secret q = ∅
  | .existence _ => True

/-- The node reads nothing secret, neither by its expressions nor by using whole rows. -/
def SealedAt (answered : (root node : LogicalPlan) → Column → Prop) (root : LogicalPlan) (around : Set Column)
    (node : LogicalPlan) : Prop :=
  (∀ e ∈ node.expressions, ∀ s ∈ e.sources, s.Sealed secret (rawSeen secret node) around (answered root node)) ∧
    (node.wholeRows → rawSeen secret node = ∅)

abbrev enterRaw (p : LogicalPlan) (around : Set Column) : Set Column := rawSeen secret p ∪ around

variable {secret}

theorem raw_subset_rawList {p} : ∀ {ps}, p ∈ ps → raw secret p ⊆ rawList secret ps
  | q :: ps, h => by
    rcases mem_cons.mp h with rfl | h
    · exact Set.subset_union_left
    · exact (raw_subset_rawList h).trans Set.subset_union_right

theorem rawList_congr : ∀ {ps qs}, Forall₂ (fun p q => raw secret p = raw secret q) ps qs →
    rawList secret ps = rawList secret qs
  | _, _, .nil => rfl
  | _, _, .cons h hs => by rw [rawList, rawList, h, rawList_congr hs]

section Correlated

variable {answered : (root node : LogicalPlan) → Column → Prop} {root p q : LogicalPlan}

theorem sealed_aliasedScan (root) (around) (name t) :
    EachNode (enterRaw secret) (SealedAt secret answered) root around
      (.subqueryAlias name (.tableScan t none [] none)) := by
  refine .intro ⟨nofun, nofun⟩ (fun i hi => ?_) fun e he => nomatch he
  obtain rfl := mem_singleton.mp hi
  exact .intro ⟨nofun, nofun⟩ nofun fun e he => nomatch he

/-- Columns of the rows of `p` for which `q` has a row with the same key. -/
theorem sealed_correlated (cs : List Column) {schema c key}
    (hp : ∀ around, EachNode (enterRaw secret) (SealedAt secret answered) root around p)
    (hq : ∀ root around, EachNode (enterRaw secret) (SealedAt secret answered) root around q) :
    let matching : LogicalPlan := .filter (.op "=" [.column c, .outerReferenceColumn key]) q
    let plan : LogicalPlan := .projection (cs.map .column)
      (.filter (.existsSubquery matching [.outerReferenceColumn key] false) p) schema
    (∀ c' ∈ cs, c'.Misses (raw secret p) ∨ answered root plan c') → c.Misses (raw secret q) →
      key.Misses (raw secret p) → EachNode (enterRaw secret) (SealedAt secret answered) root ∅ plan := by
  intro matching plan hcs hc hk
  refine .intro ⟨fun e he s hs => ?_, nofun⟩ (fun i hi => ?_) fun e he q hq => ?_
  · obtain ⟨c', hc', rfl⟩ := mem_map.mp he
    obtain rfl := mem_singleton.mp hs
    simpa [Source.Sealed, plan, rawSeen, rawList, raw, inputs] using hcs c' hc'
  · obtain rfl := mem_singleton.mp hi
    refine .intro ⟨fun e he s hs => ?_, nofun⟩ (fun i hi => ?_) fun e he q' hq' => ?_
    · obtain rfl := mem_singleton.mp he
      obtain rfl := mem_singleton.mp hs
      trivial
    · obtain rfl := mem_singleton.mp hi
      exact hp _
    · obtain rfl := mem_singleton.mp he
      obtain rfl : matching = q' := by simpa using hq'
      refine .intro ⟨fun e he s hs => ?_, nofun⟩ (fun i hi => ?_) fun e he q hq => ?_
      · obtain rfl := mem_singleton.mp he
        rcases mem_pair.mp hs with rfl | rfl
        · left
          simpa [matching, rawSeen, rawList, inputs] using hc
        · simpa [Source.Sealed, rawSeen, rawList, inputs] using hk
      · obtain rfl := mem_singleton.mp hi
        exact hq _ _
      · obtain rfl := mem_singleton.mp he
        simp at hq
  · obtain ⟨c', -, rfl⟩ := mem_map.mp he
    simp at hq

end Correlated

section WithNew

variable {p : LogicalPlan} {es : List Expr} {is : List LogicalPlan}

theorem raw_withNew (h : Forall₂ (fun i i' => raw secret i' = raw secret i) p.inputs is) :
    raw secret ((p.withNewExpressions es).withNewInputs is) = raw secret p ∧
      rawSeen secret ((p.withNewExpressions es).withNewInputs is) = rawSeen secret p := by
  cases p with
  | tableScan => exact ⟨rfl, rfl⟩
  | filter | projection | subqueryAlias =>
    obtain ⟨i, _, hi, hn, rfl⟩ := forall₂_cons_left_iff.mp h
    obtain rfl := forall₂_nil_left_iff.mp hn
    simp [LogicalPlan.withNewExpressions, LogicalPlan.withNewInputs, raw, rawSeen, rawList, LogicalPlan.inputs, hi]
  | node kind detail exprs inputs schema =>
    have hl : rawList secret is = rawList secret inputs := (rawList_congr (Forall₂.imp (fun _ _ h => h.symm) h)).symm
    simp [LogicalPlan.withNewExpressions, LogicalPlan.withNewInputs, raw, rawSeen, LogicalPlan.inputs, hl]

theorem wholeRows_withNew (h : is.length = p.inputs.length) :
    ((p.withNewExpressions es).withNewInputs is).wholeRows = p.wholeRows := by
  cases p with
  | node kind detail exprs inputs schema =>
    simp only [LogicalPlan.withNewExpressions, LogicalPlan.withNewInputs, LogicalPlan.wholeRows, h, LogicalPlan.inputs]
  | tableScan | filter | projection | subqueryAlias => rfl

end WithNew

theorem evalPlan_subqueryAlias_keepAll (outer) (name) (input) :
    evalPlan I db keepAll outer (.subqueryAlias name input) =
      (evalPlan I db keepAll outer input).map (Row.aliased name) := by
  cases input with
  | tableScan => simp only [evalPlan, filter_keepAll]
  | filter | projection | subqueryAlias | node => exact evalPlan_subqueryAlias nofun

theorem evalExprs_of_sealedAt {root p around outer outer' row row'}
    (h : SealedAt secret (fun _ _ _ => False) root around p)
    (hsu : ∀ e ∈ p.expressions, ∀ q, e.Embeds q → RowsAgree (raw secret q)
      (evalPlan I db keepAll (row ++ outer) q) (evalPlan I db' keepAll (row' ++ outer') q))
    (hro : Agrees (rawSeen secret p) row row') (ho : Agrees around outer outer') :
    evalExprs I db keepAll outer row p.expressions = evalExprs I db' keepAll outer' row' p.expressions := by
  rw [evalExprs_eq_map, evalExprs_eq_map]
  refine map_congr_left fun e he => evalExpr_congr fun s hs => ?_
  have hse := h.1 e he s hs
  cases s with
  | column c => exact hro.get_eq I.null (hse.resolve_right not_false)
  | outer c => exact ho.get_eq I.null hse
  | values q =>
    have hq := hsu e he q (Expr.embeds_iff_mem_sources.mpr (.inl hs))
    rw [show raw secret q = ∅ from hse] at hq
    exact hq.map_eq fun r r' hr => by rw [hr.eq]
  | existence q =>
    have hq := hsu e he q (Expr.embeds_iff_mem_sources.mpr (.inr hs))
    rw [Source.Same, Bool.eq_iff_iff, isEmpty_iff_length_eq_zero, isEmpty_iff_length_eq_zero, hq.length_eq]

/-- **No secret is read.** If no node of the plan reads a secret field, runs on two databases that differ only
in secret columns give the same rows, which agree but in the fields that still hold secrets. -/
theorem evalPlan_agrees (hdb : DiffersOnly secret db db') {root p around}
    (h : EachNode (enterRaw secret) (SealedAt secret fun _ _ _ => False) root around p) :
    ∀ {outer outer'}, Agrees around outer outer' →
      RowsAgree (raw secret p) (evalPlan I db keepAll outer p) (evalPlan I db' keepAll outer' p) := by
  induction h with
  | @intro root p around here _ _ his hs =>
    intro outer outer' ho
    have hex : ∀ row row', Agrees (rawSeen secret p) row row' →
        evalExprs I db keepAll outer row p.expressions = evalExprs I db' keepAll outer' row' p.expressions := by
      intro row row' hro
      refine evalExprs_of_sealedAt here (fun e he q hq => hs e he q hq ?_) hro ho
      exact (hro.mono Set.subset_union_left).append (ho.mono Set.subset_union_right)
    cases p with
    | tableScan t projection filters fetch =>
      simp only [evalPlan, filter_keepAll]
      exact scanRows_agrees hdb (fun r r' hr => congrArg (all · I.isTrue) (hex r r' hr)) projection fetch
    | filter predicate input =>
      have hin := his input (mem_singleton_self _) ho
      refine hin.filter fun r r' hr => ?_
      have hp := hex r r' (hr.mono (raw_subset_rawList (mem_singleton_self _)))
      simp only [expressions, evalExprs, cons.injEq, and_true] at hp
      rw [hp]
    | projection expr input schema =>
      have hin := his input (mem_singleton_self _) ho
      refine hin.map fun r r' hr => ?_
      rw [show evalExprs I db keepAll outer r expr = _ from
        hex r r' (hr.mono (raw_subset_rawList (mem_singleton_self _)))]
      exact .refl _ _
    | subqueryAlias name input =>
      have hin := his input (mem_singleton_self _) ho
      rw [evalPlan_subqueryAlias_keepAll, evalPlan_subqueryAlias_keepAll]
      exact hin.map fun r r' hr => hr.aliased name
    | node kind detail exprs inputs schema =>
      simp only [evalPlan, evalPlans_eq_map]
      refine nodeRows_agrees hex ?_ kind detail schema ?_
      · refine forall₂_map_left_iff.mpr (forall₂_map_right_iff.mpr (forall₂_same.mpr fun i hi => ?_))
        exact (his i hi ho).mono (raw_subset_rawList hi)
      · rw [length_map]
        exact here.2

end Raw

end Runs

end DataFusion
