/-
Which column of a table a value in a query's output is.

References, aliases, derived tables and group keys hand the value of a column on
as it is. `header` follows the columns through a plan in this way. A rewrite puts
other expressions in the place of some references, so each row that the rewritten
plan computes is seen beside its twin: the row with the values that the references
of the original plan hand on, along the course that the rewritten plan has taken.
-/
import Dataglot.DataFusion.Flow

namespace DataFusion
open List

/-! ## Origins -/

/-- What the value of a field is. -/
inductive Origin
  /-- the value of a column of a table; if `replaced`, an expression over that value -/
  | cell (t : TableReference) (column : String) (replaced : Bool)
  | other
  deriving DecidableEq, Repr

/-- The fields that the rows of a plan may have, with what their values may be. -/
abbrev Header := Set (Column × Origin)

def Header.found (H : Header) (c : Column) : Set Origin :=
  {o | (∃ f, (f, o) ∈ H ∧ c.refersTo f = true) ∨ (o = .other ∧ ∀ f o', (f, o') ∈ H → c.refersTo f = false)}

/-- What the value of an expression may be, given what references read. -/
def Expr.origins (reads : Column → Set Origin) : Expr → Set Origin
  | .column c => reads c
  | .aliasExpr e _ _ => e.origins reads
  | _ => {.other}

/-- The fields that a node computes, each from the expression at its place. The others are not known. -/
def computed (handsOn : Nat → Prop) (reads : Column → Set Origin) (exprs : List Expr) (schema : List Column) : Header :=
  {x | ∃ i, schema[i]? = some x.1 ∧
    ((handsOn i ∧ ∃ e, exprs[i]? = some e ∧ x.2 ∈ e.origins reads) ∨ (¬ handsOn i ∧ x.2 = .other))}

theorem computed_column {handsOn reads c o} (h : handsOn 0)
    (hr : reads c = {o}) (f) : computed handsOn reads [.column c] [f] = {(f, o)} := by
  ext x
  constructor
  · rintro ⟨i, hfi, hx⟩
    obtain ⟨hi, hf⟩ := List.getElem?_eq_some_iff.mp hfi
    obtain rfl : i = 0 := by simpa using hi
    rcases hx with ⟨-, e, he, hx⟩ | ⟨hn, -⟩
    · cases he
      rw [Expr.origins, hr] at hx
      exact Prod.ext hf.symm hx
    · exact absurd h hn
  · rintro rfl
    exact ⟨0, rfl, .inl ⟨h, .column c, rfl, by rw [Expr.origins, hr]; rfl⟩⟩

theorem Header.found_nonempty (H : Header) (c) : (H.found c).Nonempty := by
  by_cases h : ∃ f o, (f, o) ∈ H ∧ c.refersTo f = true
  · obtain ⟨f, o, hm, hf⟩ := h
    exact ⟨o, .inl ⟨f, hm, hf⟩⟩
  · exact ⟨.other, .inr ⟨rfl, fun f o hm => Bool.eq_false_iff.mpr fun hf => h ⟨f, o, hm, hf⟩⟩⟩

theorem Header.found_eq_singleton {H : Header} {c f o} (hm : (f, o) ∈ H)
    (hf : c.refersTo f = true) (ho : ∀ f' o', (f', o') ∈ H → c.refersTo f' = true → o' = o) : H.found c = {o} := by
  ext o'
  constructor
  · rintro (⟨f', hm', hf'⟩ | ⟨-, hn⟩)
    · exact ho f' o' hm' hf'
    · rw [hn f o hm] at hf
      cases hf
  · rintro rfl
    exact .inl ⟨f, hm, hf⟩

theorem Header.found_singleton {c f} (hf : c.refersTo f = true) (o) : Header.found {(f, o)} c = {o} :=
  found_eq_singleton rfl hf fun _ _ hm _ => (Prod.ext_iff.mp hm).2

section Rows

variable {V : Type} (I : Interp V)

/-- At this place the node emits a value that the expression at the place has on an input row, as an aggregate
does with a group key. -/
def Interp.HandsOn (kind : NodeKind) (detail : String) (i : Nat) : Prop :=
  ∀ values, ∀ out ∈ I.emit kind detail values, ∀ v, (i, v) ∈ out → ∃ row ∈ values, row[i]? = some v

section Header

variable (columnsOf : TableReference → List String) (reads : Header → Column → Set Origin)

mutual

/-- The fields of a plan's rows, given the columns of the tables and what a reference reads in a row. -/
def header : LogicalPlan → Header
  | .tableScan t _ _ _ => {x | ∃ n ∈ columnsOf t, x = (⟨some t, n⟩, .cell t n false)}
  | .subqueryAlias name input => {x | ∃ f, (f, x.2) ∈ header input ∧ x.1 = ⟨some name, f.name⟩}
  | .filter _ input => header input
  | .projection expr input schema => computed (fun _ => True) (reads (header input)) expr schema
  | .node kind detail exprs inputs schema =>
    match kind.shape, headers inputs with
    | .emit, [H] => computed (I.HandsOn kind detail) (reads H) exprs schema
    | .pass, [H] => H ∪ {x | x.1 ∈ schema ∧ x.2 = .other}
    | .merge, [H, K] => H ∪ K
    | _, _ => {x | x.2 = .other}

def headers : List LogicalPlan → List Header
  | [] => []
  | p :: ps => header p :: headers ps

end

variable {columnsOf reads}

theorem header_subqueryAlias_of_eq {input f o}
    (h : header I columnsOf reads input = {(f, o)}) (name) :
    header I columnsOf reads (.subqueryAlias name input) = {(⟨some name, f.name⟩, o)} := by
  ext x
  simp [header, h, Prod.ext_iff, and_comm]

end Header

/-! ## Twins -/

/-- What a node emits, by place, under the names of its columns. -/
def named (schema : List Column) (out : List (Nat × V)) : Row V :=
  out.filterMap fun (i, v) => schema[i]?.map fun c => (c, v)

variable (db : Database V) (outer : Row V)

/-- `row` is a row that the second plan computes, and `twin` holds the values that the expressions of the first
plan have instead, on the rows that `row` was computed from. -/
inductive Twin : LogicalPlan → LogicalPlan → (row twin : Row V) → Prop
  | scan {t projection filters filters' fetch row}
      (read : row ∈ evalPlan I db keepAll outer (.tableScan t projection filters' fetch)) :
      Twin (.tableScan t projection filters fetch) (.tableScan t projection filters' fetch) row row
  | aliased {name i i' row twin} (input : Twin i i' row twin) :
      Twin (.subqueryAlias name i) (.subqueryAlias name i') (row.aliased name) (twin.aliased name)
  | filter {e e' i i' row twin} (input : Twin i i' row twin) (holds : I.isTrue (evalExpr I db keepAll outer row e')) :
      Twin (.filter e i) (.filter e' i') row twin
  | projection {es es' i i' schema row twin} (input : Twin i i' row twin) :
      Twin (.projection es i schema) (.projection es' i' schema) (schema.zip (evalExprs I db keepAll outer row es'))
        (schema.zip (evalExprs I db keepAll outer twin es))
  | pass {kind detail es es' i i' schema added row twin} (shape : kind.shape = .pass) (input : Twin i i' row twin) :
      Twin (.node kind detail es [i] schema) (.node kind detail es' [i'] schema) (row ++ schema.zip added)
        (twin ++ schema.zip added)
  | both {kind detail es es' l l' r r' schema left right twin₁ twin₂} (shape : kind.shape = .merge)
      (input₁ : Twin l l' left twin₁) (input₂ : Twin r r' right twin₂) :
      Twin (.node kind detail es [l, r] schema) (.node kind detail es' [l', r'] schema) (left ++ right) (twin₁ ++ twin₂)
  | leftOnly {kind detail es es' l l' r r' schema row twin} (shape : kind.shape = .merge)
      (input : Twin l l' row twin) :
      Twin (.node kind detail es [l, r] schema) (.node kind detail es' [l', r'] schema) row twin
  | rightOnly {kind detail es es' l l' r r' schema row twin} (shape : kind.shape = .merge)
      (input : Twin r r' row twin) :
      Twin (.node kind detail es [l, r] schema) (.node kind detail es' [l', r'] schema) row twin
  | neither {kind detail es es' l l' r r' schema} (shape : kind.shape = .merge) :
      Twin (.node kind detail es [l, r] schema) (.node kind detail es' [l', r'] schema) [] []
  /-- each place that hands a value on has it from a row of the input -/
  | emit {kind detail es es' i i' schema out} (source : Nat × V → Row V × Row V) (original : Nat × V → V)
      (shape : kind.shape = .emit)
      (input : ∀ x ∈ out, I.HandsOn kind detail x.1 → Twin i i' (source x).1 (source x).2)
      (values : ∀ x ∈ out, I.HandsOn kind detail x.1 →
        (evalExprs I db keepAll outer (source x).1 es')[x.1]? = some x.2 ∧
          (evalExprs I db keepAll outer (source x).2 es)[x.1]? = some (original x)) :
      Twin (.node kind detail es [i] schema) (.node kind detail es' [i'] schema) (named schema out)
        (named schema (out.map fun x => (x.1, original x)))
  /-- nothing is known of the rows of such a node -/
  | unread {kind detail es es' inputs inputs' schema row} (h : kind.wholeRows inputs.length ∨ inputs = []) :
      Twin (.node kind detail es inputs schema) (.node kind detail es' inputs' schema) row row

variable {I db outer}

/-! ## Rows and twins against a header -/

/-- What is to hold of a value and its twin, by their origin. -/
structure Fitting (I : Interp V) (db : Database V) (fits : Origin → V → V → Prop) : Prop where
  other : ∀ v w, fits .other v w
  cell : ∀ t, ∀ r ∈ db t, ∀ f ∈ r, fits (.cell t f.1 false) f.2 f.2
  /-- a reference may find no field, as in a row that an outer join has completed -/
  null : ∀ o, fits o I.null I.null

/-- A row and a twin with the same fields, whose values fit an origin that the header has for the field. -/
def Matches (fits : Origin → V → V → Prop) (H : Header) (row twin : Row V) : Prop :=
  List.Forall₂ (fun f g => f.1 = g.1 ∧ ∃ o, (f.1, o) ∈ H ∧ fits o f.2 g.2) row twin

namespace Matches

variable {fits : Origin → V → V → Prop} {H K : Header} {row twin row' twin' : Row V}

theorem mono (h : Matches fits H row twin) (hs : H ⊆ K) : Matches fits K row twin :=
  Forall₂.imp (fun _ _ ⟨hname, o, ho, hf⟩ => ⟨hname, o, hs ho, hf⟩) h

theorem append (h : Matches fits H row twin) (h' : Matches fits H row' twin') :
    Matches fits H (row ++ row') (twin ++ twin') := rel_append h h'

theorem aliased (h : Matches fits H row twin) (name) :
    Matches fits {x | ∃ f, (f, x.2) ∈ H ∧ x.1 = ⟨some name, f.name⟩} (row.aliased name) (twin.aliased name) := by
  refine rel_map (fun f g hfg => ?_) h
  obtain ⟨hname, o, ho, hf⟩ := hfg
  exact ⟨by rw [hname], o, ⟨f.1, ho, rfl⟩, hf⟩

theorem refl (h : ∀ f ∈ row, ∃ o, (f.1, o) ∈ H ∧ fits o f.2 f.2) : Matches fits H row row :=
  forall₂_same.mpr fun f hf => ⟨rfl, h f hf⟩

theorem exists_origin (h : Matches fits H row twin) : ∀ f ∈ row, ∃ o, (f.1, o) ∈ H := by
  induction h with
  | nil => simp
  | cons hfg _ ih =>
    obtain ⟨-, o, ho, -⟩ := hfg
    exact forall_mem_cons.mpr ⟨⟨o, ho⟩, ih⟩

theorem get (hft : Fitting I db fits) (h : Matches fits H row twin) (c : Column) :
    ∃ o ∈ H.found c, fits o (row.get I.null c) (twin.get I.null c) := by
  induction h with
  | nil =>
    obtain ⟨o, ho⟩ := H.found_nonempty c
    exact ⟨o, ho, hft.null o⟩
  | @cons f g row twin hfg _ ih =>
    obtain ⟨hname, o, ho, hfi⟩ := hfg
    unfold Row.get at ih ⊢
    rw [find?_cons, find?_cons, ← hname]
    cases hf : c.refersTo f.1 with
    | false => exact ih
    | true => exact ⟨o, .inl ⟨f.1, ho, hf⟩, hfi⟩

end Matches

/-! ## Every row has a twin -/

theorem mem_of_mem_scanRows {t projection fetch passes row} (h : row ∈ scanRows db t projection fetch passes) :
    ∃ r ∈ db t, ∀ f ∈ row, ∃ g ∈ r, f = (⟨some t, g.1⟩, g.2) := by
  obtain ⟨r', hr', hc⟩ : ∃ r' ∈ (db t).map fun r => r.map fun f => ((⟨some t, f.1⟩ : Column), f.2),
      row = r' ∨ ∃ is : List Nat, row = is.filterMap fun i => r'[i]? := by
    unfold scanRows at h
    cases fetch with
    | none =>
      obtain ⟨r', hr', rfl⟩ := mem_map.mp h
      refine ⟨r', (mem_filter.mp hr').1, ?_⟩
      cases projection <;> simp
    | some n =>
      obtain ⟨r', hr', rfl⟩ := mem_map.mp (mem_of_mem_take h)
      refine ⟨r', (mem_filter.mp hr').1, ?_⟩
      cases projection <;> simp
  obtain ⟨r, hr, rfl⟩ := mem_map.mp hr'
  refine ⟨r, hr, fun f hf => ?_⟩
  have hre : f ∈ r.map fun f => ((⟨some t, f.1⟩ : Column), f.2) := by
    rcases hc with rfl | ⟨is, rfl⟩
    · exact hf
    · obtain ⟨i, -, hi⟩ := mem_filterMap.mp hf
      exact mem_of_getElem? hi
  obtain ⟨g, hg, rfl⟩ := mem_map.mp hre
  exact ⟨g, hg, rfl⟩

section Exists

variable {fits : Origin → V → V → Prop} {columnsOf : TableReference → List String}
  {reads : Header → Column → Set Origin}

/-- The values of the expressions in a row and of the originals in its twin. -/
def ReadsSoundly (I : Interp V) (db : Database V) (outer : Row V) (fits : Origin → V → V → Prop)
    (reads : Header → Column → Set Origin) (e e' : Expr) : Prop :=
  ∀ H row twin, Matches fits H row twin →
    ∃ o ∈ e.origins (reads H), fits o (evalExpr I db keepAll outer row e') (evalExpr I db keepAll outer twin e)

theorem matches_projection {es h H row twin}
    (hr : ∀ e ∈ es, ReadsSoundly I db outer fits reads e (h e)) (hm : Matches fits H row twin)
    (schema) : Matches fits (computed (fun _ => True) (reads H) es schema)
      (schema.zip (evalExprs I db keepAll outer row (es.map h)))
      (schema.zip (evalExprs I db keepAll outer twin es)) := by
  rw [evalExprs_eq_map, evalExprs_eq_map, map_map]
  refine forall₂_iff_get.mpr ⟨by simp, fun i hi hi' => ?_⟩
  simp only [length_zip, length_map, lt_inf_iff] at hi
  obtain ⟨o, ho, hf⟩ := hr es[i] (getElem_mem hi.2) H row twin hm
  simp only [get_eq_getElem, getElem_zip, getElem_map, Function.comp_apply, true_and]
  exact ⟨o, ⟨i, by simp [hi.1], .inl ⟨trivial, es[i], by simp [hi.2], ho⟩⟩, hf⟩

section Emit

variable {kind : NodeKind} {detail : String} {es : List Expr} {h : Expr → Expr} {i i' : LogicalPlan}
  {schema : List Column} {H : Header} {rows : List (Row V)}

/-- A value that a node hands on is one of an input row, and has a twin in the twin of that row. -/
theorem exists_twin_value (hr : ∀ e ∈ es, ReadsSoundly I db outer fits reads e (h e))
    (hin : ∀ row ∈ rows, ∃ twin, Twin I db outer i i' row twin ∧ Matches fits H row twin) {out}
    (hou : out ∈ I.emit kind detail (rows.map fun r => evalExprs I db keepAll outer r (es.map h)))
    {x} (hx : x ∈ out) (hk : I.HandsOn kind detail x.1) :
    ∃ row twin e, Twin I db outer i i' row twin ∧ es[x.1]? = some e ∧ evalExpr I db keepAll outer row (h e) = x.2 ∧
      ∃ o ∈ e.origins (reads H), fits o x.2 (evalExpr I db keepAll outer twin e) := by
  obtain ⟨values, hva, hv⟩ := hk _ out hou x.2 hx
  obtain ⟨row, hro, rfl⟩ := mem_map.mp hva
  obtain ⟨twin, ht, hm⟩ := hin row hro
  simp only [evalExprs_eq_map, getElem?_map, Option.map_eq_some_iff] at hv
  obtain ⟨_, ⟨e, he, rfl⟩, hv⟩ := hv
  obtain ⟨o, ho, hf⟩ := hr e (mem_of_getElem? he) H row twin hm
  exact ⟨row, twin, e, ht, he, hv, o, ho, hv ▸ hf⟩

theorem exists_twin_emit (hs : kind.shape = .emit) (hft : Fitting I db fits)
    (hr : ∀ e ∈ es, ReadsSoundly I db outer fits reads e (h e))
    (hin : ∀ row ∈ rows, ∃ twin, Twin I db outer i i' row twin ∧ Matches fits H row twin) {row}
    (hro : row ∈ I.emitRows kind detail schema (fun r => evalExprs I db keepAll outer r (es.map h)) rows) :
    ∃ twin, Twin I db outer (.node kind detail es [i] schema) (.node kind detail (es.map h) [i'] schema) row twin ∧
      Matches fits (computed (I.HandsOn kind detail) (reads H) es schema) row twin := by
  obtain ⟨out, hou, rfl⟩ := mem_map.mp hro
  have : Nonempty Expr := ⟨.literal .null⟩
  have hc : ∀ x ∈ out, I.HandsOn kind detail x.1 → _ := fun x hx => exists_twin_value hr hin hou hx
  choose! source twinRow expr ht he hv hor using hc
  let original (x : Nat × V) : V := evalExpr I db keepAll outer (twinRow x) (expr x)
  refine ⟨named schema (out.map fun x => (x.1, original x)), ?_, ?_⟩
  · refine .emit (fun x => (source x, twinRow x)) original hs ht fun x hx hk => ?_
    simp only [evalExprs_eq_map, getElem?_map, he x hx hk, Option.map_some, hv x hx hk, original,
      true_and]
  · have hp : Forall₂ (fun x y => x ∈ out ∧ y = (x.1, original x)) out (out.map fun x => (x.1, original x)) :=
      forall₂_map_right_iff.mpr (forall₂_same.mpr fun x hx => ⟨hx, rfl⟩)
    refine rel_filterMap ?_ hp
    rintro x _ ⟨hx, rfl⟩
    cases hf : schema[x.1]? with
    | none => simp [hf]
    | some f =>
      simp only [hf, Option.map_some]
      refine .some ⟨rfl, ?_⟩
      by_cases hk : I.HandsOn kind detail x.1
      · obtain ⟨o, ho, hfi⟩ := hor x hx hk
        exact ⟨o, ⟨x.1, hf, .inl ⟨hk, expr x, he x hx hk, ho⟩⟩, hfi⟩
      · exact ⟨.other, ⟨x.1, hf, .inr ⟨hk, rfl⟩⟩, hft.other _ _⟩

end Emit

theorem exists_twin_pass {kind detail es es' i i' schema H rows values} (hs : kind.shape = .pass)
    (hfi : Fitting I db fits)
    (hin : ∀ row ∈ rows, ∃ twin, Twin I db outer i i' row twin ∧ Matches fits H row twin) {row}
    (hro : row ∈ I.passRows kind detail schema values rows) :
    ∃ twin, Twin I db outer (.node kind detail es [i] schema) (.node kind detail es' [i'] schema) row twin ∧
      Matches fits (H ∪ {x | x.1 ∈ schema ∧ x.2 = .other}) row twin := by
  obtain ⟨⟨j, added⟩, -, hro⟩ := mem_filterMap.mp hro
  obtain ⟨r, hr, rfl⟩ := Option.map_eq_some_iff.mp hro
  obtain ⟨twin, ht, hm⟩ := hin r (mem_of_getElem? hr)
  refine ⟨twin ++ schema.zip added, .pass hs ht, (hm.mono Set.subset_union_left).append ?_⟩
  exact .refl fun f hf => ⟨.other, .inr ⟨(of_mem_zip hf).1, rfl⟩, hfi.other _ _⟩

theorem exists_twin_side {i i' H K} {rows : List (Row V)}
    (hin : ∀ row ∈ rows, ∃ twin, Twin I db outer i i' row twin ∧ Matches fits H row twin) (hs : H ⊆ K)
    {place : Option Nat} {row} (hr : (place.bind fun j => rows[j]?) = some row) :
    ∃ twin, Twin I db outer i i' row twin ∧ Matches fits K row twin := by
  obtain ⟨j, -, hj⟩ := Option.bind_eq_some_iff.mp hr
  obtain ⟨twin, ht, hm⟩ := hin row (mem_of_getElem? hj)
  exact ⟨twin, ht, hm.mono hs⟩

theorem exists_twin_merge {kind detail es es' l l' r r'} {schema : List Column} {H K : Header} {left right values}
    (hs : kind.shape = .merge)
    (hle : ∀ row ∈ left, ∃ twin, Twin I db outer l l' row twin ∧ Matches fits H row twin)
    (hri : ∀ row ∈ right, ∃ twin, Twin I db outer r r' row twin ∧ Matches fits K row twin) {row}
    (hro : row ∈ I.mergeRows detail values left right) :
    ∃ twin, Twin I db outer (.node kind detail es [l, r] schema) (.node kind detail es' [l', r'] schema) row twin ∧
      Matches fits (H ∪ K) row twin := by
  obtain ⟨⟨j, k⟩, -, rfl⟩ := mem_map.mp hro
  have hl := fun a => @exists_twin_side V I db outer fits l l' H (H ∪ K) left hle Set.subset_union_left j a
  have hr := fun b => @exists_twin_side V I db outer fits r r' K (H ∪ K) right hri Set.subset_union_right k b
  cases ha : j.bind fun j => left[j]? with
  | none =>
    cases hb : k.bind fun k => right[k]? with
    | none => exact ⟨[], by simpa [ha, hb] using .neither hs, by simpa [ha, hb] using .nil⟩
    | some b =>
      obtain ⟨twin, ht, hm⟩ := hr b hb
      exact ⟨twin, by simpa [ha, hb] using .rightOnly hs ht, by simpa [ha, hb] using hm⟩
  | some a =>
    obtain ⟨twin, ht, hm⟩ := hl a ha
    cases hb : k.bind fun k => right[k]? with
    | none => exact ⟨twin, by simpa [ha, hb] using .leftOnly hs ht, by simpa [ha, hb] using hm⟩
    | some b =>
      obtain ⟨twin', ht', hm'⟩ := hr b hb
      exact ⟨twin ++ twin', by simpa [ha, hb] using .both hs ht ht',
        by simpa [ha, hb] using hm.append hm'⟩

/-- Whether the node computes new fields from its expressions. -/
def LogicalPlan.computes : LogicalPlan → Bool
  | .projection _ _ _ => true
  | .node kind _ _ _ _ => kind.shape == .emit
  | _ => false

/-- On the plans in `good`, `g` changes the expressions of every node below by `h`, and nothing else. -/
structure ChangesExpressions (good : LogicalPlan → Prop) (g : LogicalPlan → LogicalPlan)
    (h : LogicalPlan → Expr → Expr) : Prop where
  inputs : ∀ {p}, good p → ∀ i ∈ p.inputs, good i
  eq : ∀ {p}, good p → g p = (p.withNewExpressions (p.expressions.map (h p))).withNewInputs (p.inputs.map g)

theorem shape_of_not_unread {kind : NodeKind} {inputs : List LogicalPlan}
    (h : ¬ (kind.wholeRows inputs.length ∨ inputs = [])) :
    (kind.shape = .emit ∧ ∃ i, inputs = [i]) ∨ (kind.shape = .pass ∧ ∃ i, inputs = [i]) ∨
      (kind.shape = .merge ∧ ∃ l r, inputs = [l, r]) := by
  unfold NodeKind.wholeRows at h
  rcases inputs with _ | ⟨i, _ | ⟨j, _ | ⟨k, rest⟩⟩⟩
  · simp at h
  · cases hs : kind.shape <;> simp_all
  · cases hs : kind.shape <;> simp_all
  · cases hs : kind.shape <;> simp_all

theorem header_of_unread {kind inputs} (h : kind.wholeRows inputs.length ∨ inputs = [])
    (detail) (exprs) (schema) :
    header I columnsOf reads (.node kind detail exprs inputs schema) = {x | x.2 = .other} := by
  unfold NodeKind.wholeRows at h
  unfold header
  rcases inputs with _ | ⟨i, _ | ⟨j, _ | ⟨k, rest⟩⟩⟩
  · cases kind.shape <;> rfl
  · cases hs : kind.shape <;> simp [hs, headers] at h ⊢
  · cases hs : kind.shape <;> simp [hs, headers] at h ⊢
  · cases kind.shape <;> rfl

/-- **Every row has a twin**, and both are as the header of the original plan says, if the expressions that
compute new fields are. -/
theorem exists_twin {good g h}
    (hft : Fitting I db fits) (hdb : ∀ t, ∀ r ∈ db t, ∀ f ∈ r, f.1 ∈ columnsOf t) (hg : ChangesExpressions good g h)
    (hre : ∀ p, good p → p.computes → ∀ e ∈ p.expressions, ReadsSoundly I db outer fits reads e (h p e))
    (p) : good p → ∀ row ∈ evalPlan I db keepAll outer (g p),
      ∃ twin, Twin I db outer p (g p) row twin ∧ Matches fits (header I columnsOf reads p) row twin := by
  refine LogicalPlan.induct ?_ p
  intro p his _ hp row hro
  have hin := fun i hi => his i hi (hg.inputs hp i hi)
  rw [hg.eq hp] at hro ⊢
  cases p with
  | tableScan t projection filters fetch =>
    simp only [LogicalPlan.withNewExpressions, LogicalPlan.withNewInputs, LogicalPlan.expressions] at hro ⊢
    refine ⟨row, .scan hro, .refl fun f hf => ?_⟩
    simp only [evalPlan, filter_keepAll] at hro
    obtain ⟨r, hr, hfi⟩ := mem_of_mem_scanRows hro
    obtain ⟨x, hx, rfl⟩ := hfi f hf
    exact ⟨.cell t x.1 false, ⟨x.1, hdb t r hr x hx, rfl⟩, hft.cell t r hr x hx⟩
  | filter predicate input =>
    simp only [LogicalPlan.withNewExpressions, LogicalPlan.withNewInputs, LogicalPlan.expressions, LogicalPlan.inputs,
      map_cons, map_nil, evalPlan, mem_filter] at hro ⊢
    obtain ⟨twin, ht, hm⟩ := hin input (mem_singleton_self _) row hro.1
    exact ⟨twin, .filter ht hro.2, hm⟩
  | projection expr input schema =>
    simp only [LogicalPlan.withNewExpressions, LogicalPlan.withNewInputs, LogicalPlan.expressions, LogicalPlan.inputs,
      map_cons, map_nil, evalPlan, mem_map] at hro ⊢
    obtain ⟨r, hr, rfl⟩ := hro
    obtain ⟨twin, ht, hm⟩ := hin input (mem_singleton_self _) r hr
    exact ⟨_, .projection ht, matches_projection (hre _ hp rfl) hm schema⟩
  | subqueryAlias name input =>
    simp only [LogicalPlan.withNewExpressions, LogicalPlan.withNewInputs, LogicalPlan.inputs,
      map_cons, map_nil, evalPlan_subqueryAlias_keepAll, mem_map] at hro ⊢
    obtain ⟨r, hr, rfl⟩ := hro
    obtain ⟨twin, ht, hm⟩ := hin input (mem_singleton_self _) r hr
    exact ⟨_, .aliased ht, hm.aliased name⟩
  | node kind detail exprs inputs schema =>
    simp only [LogicalPlan.withNewExpressions, LogicalPlan.withNewInputs, LogicalPlan.expressions, LogicalPlan.inputs,
      evalPlan, evalPlans_eq_map] at hro ⊢
    by_cases hw : kind.wholeRows inputs.length ∨ inputs = []
    · rw [header_of_unread hw]
      exact ⟨row, .unread hw, .refl fun f _ => ⟨.other, rfl, hft.other _ _⟩⟩
    rcases shape_of_not_unread hw with ⟨hs, i, rfl⟩ | ⟨hs, i, rfl⟩ | ⟨hs, l, r, rfl⟩
    · simp only [Interp.nodeRows, header, headers, hs, map_cons, map_nil] at hro ⊢
      refine exists_twin_emit hs hft (hre _ hp ?_) (hin i (mem_singleton_self _)) hro
      simp [LogicalPlan.computes, hs]
    · simp only [Interp.nodeRows, header, headers, hs, map_cons, map_nil] at hro ⊢
      exact exists_twin_pass hs hft (hin i (mem_singleton_self _)) hro
    · simp only [Interp.nodeRows, header, headers, hs, map_cons, map_nil] at hro ⊢
      exact exists_twin_merge hs (hin l mem_cons_self) (hin r (by simp [LogicalPlan.inputs])) hro

end Exists

end Rows

end DataFusion
