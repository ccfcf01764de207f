/-
How often a mask is applied to a value.

A mask is put in under the name of the column it masks. A node further up that
refers to the column finds the mask's result under that name, and masks it again:
an aggregate and the projection over it do so with a group key. A mask also reads
its column by name, and so may find another field of a join than the reference it
replaces. Where neither happens, each value that is handed on to the output from a
masked column is the mask of that value, and a second rewrite changes nothing.
-/
import Mathlib
import Dataglot.DataFusion.Origins
import Dataglot.Policy.MaskFlow
import Dataglot.Policy.MaskKinds

namespace Dataglot
open DataFusion LogicalPlan Expr MaskKind Header List Option

/-! ## The aliases of a rewritten plan -/

def scannedTable : LogicalPlan → Option TableReference
  | .tableScan t _ _ _ => some t
  | _ => none

theorem aliasDecls_subqueryAlias (name) (input) :
    aliasDecls (.subqueryAlias name input) =
      match scannedTable input with
      | some t => [(.bare name.table, t)]
      | none => aliasDecls input := by
  cases input <;> rfl

theorem aliasDeclsList_map {f} : ∀ {ps},
    (∀ p ∈ ps, aliasDecls (f p) = aliasDecls p) → aliasDeclsList (ps.map f) = aliasDeclsList ps
  | [], _ => rfl
  | p :: ps, h => by
    rw [map_cons, aliasDeclsList, aliasDeclsList, h p (by simp), aliasDeclsList_map fun q hq => h q (by simp [hq])]

namespace ColumnMaskingEnforcer

variable {schemaName : Expr → String} {fuel : Nat} {E : ColumnMaskingEnforcer} {id : Identity}

theorem aliasDecls_rewritten (p) : ∀ root,
    (∃ r, rewriteTree (E.visit schemaName fuel id) root p = .ok r) →
    aliasDecls (rewritten (E.visit schemaName fuel id) root p) = aliasDecls p ∧
      scannedTable (rewritten (E.visit schemaName fuel id) root p) = scannedTable p := by
  refine induct ?_ p
  intro p his _ root hok
  obtain ⟨-, -, hi⟩ := expressionWise_visit.rewriteTree_ok_iff.mp hok
  obtain ⟨r, hr⟩ := hok
  have hin := fun i hm => his i hm root (hi i hm)
  rw [rewritten_visit_eq hr]
  cases p with
  | tableScan => exact ⟨rfl, rfl⟩
  | filter predicate input | projection expr input schema =>
    exact ⟨(hin input (mem_singleton_self _)).1, rfl⟩
  | subqueryAlias name input =>
    obtain ⟨hd, hs⟩ := hin input (mem_singleton_self _)
    refine ⟨?_, rfl⟩
    simp only [withNewExpressions, withNewInputs, inputs, map_cons,
      headD_cons, aliasDecls_subqueryAlias, hs, hd]
  | node kind detail exprs inputs schema => exact ⟨aliasDeclsList_map fun i hm => (hin i hm).1, rfl⟩

variable {root plan : LogicalPlan}

theorem aliasTargets_rewritten {p} (h : ∃ r, rewriteTree (E.visit schemaName fuel id) root p = .ok r) :
    aliasTargets (rewritten (E.visit schemaName fuel id) root p) = aliasTargets p := by
  rw [aliasTargets, aliasTargets, collectAliasTargets_eq, collectAliasTargets_eq, (aliasDecls_rewritten p root h).1]

/-! ## A second rewrite -/

/-- No expression of the node that the rewrite looks at has a column with a mask. -/
def NoneLeftAt (E : ColumnMaskingEnforcer) (id : Identity) (root : LogicalPlan) (_ : Scope) (node : LogicalPlan) :
    Prop :=
  readsForItself node = false → ∀ e ∈ node.expressions, ∀ c, .column c ∈ e.nodes →
    E.maskOf (aliasTargets root) id c = none

theorem maskedExpr_of_none {lookup e} (h : ∀ c, .column c ∈ e.nodes → lookup c = none) :
    maskedExpr schemaName fuel lookup e = e := by
  by_cases hco : ∃ c, e = .column c
  · obtain ⟨c, rfl⟩ := hco
    simp only [maskedExpr, h c (self_mem_nodes _)]
  · have hs : e.substColumns (replacement (maskHit lookup fuel)) = e :=
      (substColumns_congr fun c hc => replacement_of_lookup_none (h c hc)).trans (substColumns_column e)
    rw [maskedExpr_of_ne_column (not_exists.mp hco), hs, aliasBack, if_pos rfl]

theorem rewriteTree_of_noneLeft (schemaName) (fuel) {p outer}
    (h : EachNode enterScope (E.NoneLeftAt id) root outer p) :
    (∃ r, rewriteTree (E.visit schemaName fuel id) root p = .ok r) ∧
      rewritten (E.visit schemaName fuel id) root p = p := by
  induction h with
  | @intro root p outer here _ _ hin hsu =>
    have hs : ∀ e ∈ p.expressions, descended (E.visit schemaName fuel id) e = e := fun e he =>
      (mapSubqueries_eq_iff.mpr fun q hq => (hsu e he q hq).2).trans (mapSubqueries_id e)
    have hok : ∃ r, rewriteTree (E.visit schemaName fuel id) root p = .ok r := by
      refine expressionWise_visit.rewriteTree_ok_iff.mpr
        ⟨fun e he q hq => (hsu e he q hq).1, fun e he => maskAt_descended_ok_iff.mpr ?_, fun i hi => (hin i hi).1⟩
      cases hre : readsForItself p with
      | true => exact .inl rfl
      | false =>
        refine .inr (.inr fun c hc x hx => ?_)
        have hn := here hre e he c hc
        cases fuel <;> simp [maskHit, hn] at hx
    refine ⟨hok, ?_⟩
    obtain ⟨r, hr⟩ := hok
    have hes : (p.expressions.map fun e =>
        E.maskedAt schemaName fuel id root p (descended (E.visit schemaName fuel id) e)) = p.expressions := by
      refine (map_congr_left fun e he => ?_).trans (map_id _)
      rw [hs e he, maskedAt]
      split
      next => rfl
      next hre => exact maskedExpr_of_none (here (Bool.eq_false_iff.mpr hre) e he)
    have his : p.inputs.map (rewritten (E.visit schemaName fuel id) root) = p.inputs :=
      (map_congr_left fun i hi => (hin i hi).2).trans (map_id _)
    rw [rewritten_visit_eq hr, hes, his, withNewExpressions_self, withNewInputs_self]

theorem maskedAt_of_unnested {node} (hu : Unnested (E.maskOf (aliasTargets root) id))
    {e} (hok : ∃ t, E.maskAt schemaName fuel id root node e = .ok t) :
    (∀ q, (E.maskedAt schemaName fuel id root node e).Embeds q → e.Embeds q) ∧
      (readsForItself node = false → ∀ c, .column c ∈ (E.maskedAt schemaName fuel id root node e).nodes →
        E.maskOf (aliasTargets root) id c = none) := by
  unfold maskAt at hok
  unfold maskedAt
  cases hr : readsForItself node with
  | true => exact ⟨fun q hq => by simpa using hq, nofun⟩
  | false =>
    simp only [hr, Bool.false_eq_true, if_false] at hok ⊢
    have hso := fun s => @mem_sources_maskedExpr _ fuel e schemaName hu (maskExpr_ok_iff.mp hok) s
    -- a mask reads columns only
    have hplan : ∀ s, (∀ c, s ≠ .column c) →
        s ∈ (maskedExpr schemaName fuel (E.maskOf (aliasTargets root) id) e).sources → s ∈ e.sources := by
      intro s hs hme
      refine (hso s hme).1.resolve_right fun ⟨c, m, hm, hsm⟩ => ?_
      obtain ⟨c', rfl, -⟩ := hu c m hm s hsm
      exact hs c' rfl
    refine ⟨fun q hq => ?_, fun _ c hc => (hso _ (column_mem_sources.mpr hc)).2 c rfl⟩
    rw [embeds_iff_mem_sources] at hq ⊢
    exact hq.imp (hplan _ nofun) (hplan _ nofun)

theorem readsForItself_withNewInputs (p) (is) :
    readsForItself (p.withNewInputs is) = readsForItself p := by
  cases p with
  | node kind => cases kind <;> rfl
  | tableScan | filter | projection | subqueryAlias => rfl

/-- What the masks of a plan or subquery read are columns without masks. -/
def UnnestedAt (E : ColumnMaskingEnforcer) (id : Identity) (root : LogicalPlan) (_ : Scope) (_ : LogicalPlan) : Prop :=
  Unnested (E.maskOf (aliasTargets root) id)

/-- A rewritten plan has no masked columns left. -/
theorem noneLeft_rewritten {p outer} (h : EachNode enterScope (E.UnnestedAt id) root outer p) :
    (∃ r, rewriteTree (E.visit schemaName fuel id) root p = .ok r) →
    ∀ root' outer', aliasTargets root' = aliasTargets root →
      EachNode enterScope (E.NoneLeftAt id) root' outer' (rewritten (E.visit schemaName fuel id) root p) := by
  induction h with
  | @intro root p outer here _ _ his hs =>
    intro hok root' outer' hro
    obtain ⟨hq, he, hi⟩ := expressionWise_visit.rewriteTree_ok_iff.mp hok
    obtain ⟨r, hr⟩ := hok
    rw [rewritten_visit_eq hr]
    refine .intro (fun hre => ?_) (fun i hm => ?_) fun e hm q hem => ?_
    · rw [readsForItself_withNewInputs, readsForItself_withNewExpressions] at hre
      rw [expressions_withNewInputs, expressions_withNewExpressions (length_map _), hro]
      refine forall_mem_map.mpr fun e hm => ?_
      exact (maskedAt_of_unnested here (he e hm)).2 hre
    · rw [inputs_withNewInputs (by simp)] at hm
      obtain ⟨i, hin, rfl⟩ := mem_map.mp hm
      exact his i hin (hi i hin) root' outer' hro
    · rw [expressions_withNewInputs,
        expressions_withNewExpressions (length_map _)] at hm
      obtain ⟨e, hex, rfl⟩ := mem_map.mp hm
      have hol := (maskedAt_of_unnested here (he e hex)).1 q hem
      obtain ⟨q, hq', rfl⟩ := embeds_mapSubqueries.mp hol
      have ho := hq e hex q hq'
      exact hs e hex q hq' ho _ _ (aliasTargets_rewritten ho)

theorem rewrite_data {r} (h : E.rewrite schemaName fuel plan id = .ok r) :
    (∃ t, rewriteTree (E.visit schemaName fuel id) plan plan = .ok t) ∧
      r.data = rewritten (E.visit schemaName fuel id) plan plan := by
  unfold rewrite at h
  split at h
  next he =>
    cases h
    have hn : EachNode enterScope (E.NoneLeftAt id) plan [] plan :=
      eachNode_of_forall (fun root _ _ _ _ _ c _ => maskOf_of_isEmpty he (aliasTargets root) c) _ _ _
    obtain ⟨hok, hs⟩ := rewriteTree_of_noneLeft schemaName fuel hn
    exact ⟨hok, hs.symm⟩
  next => exact ⟨⟨r, h⟩, rewritten_of_ok h⟩

/-- A second rewrite leaves the plan as it is. -/
theorem rewrite_again {r}
    (hu : EachNode enterScope (E.UnnestedAt id) plan [] plan) (h : E.rewrite schemaName fuel plan id = .ok r) :
    ∃ r', E.rewrite schemaName fuel r.data id = .ok r' ∧ r'.data = r.data := by
  obtain ⟨hok, hd⟩ := rewrite_data h
  have hn := noneLeft_rewritten hu hok r.data [] (by rw [hd, aliasTargets_rewritten hok])
  rw [← hd] at hn
  obtain ⟨⟨r', hr'⟩, hs⟩ := rewriteTree_of_noneLeft schemaName fuel hn
  unfold rewrite
  split
  next => exact ⟨_, rfl, rfl⟩
  next => exact ⟨r', hr', (rewritten_of_ok hr').trans hs⟩

/-! ## What the masks do to the values of a column -/

section Values

variable {V : Type}

/-- The mask of a value: every column that the mask reads has the value. -/
def maskedValue (I : Interp V) (mask : Expr) (v : V) : V :=
  evalExpr I (fun _ => []) keepAll [] (mask.columns.map fun c => (c, v)) mask

variable {c : Column} {mask : Expr} {root : LogicalPlan}

theorem get_map_columns {columns : List Column} (hc : c ∈ columns) (null v : V) :
    Row.get null (columns.map fun c => (c, v)) c = v := by
  have hs : c.refersTo c = true := by
    unfold Column.refersTo
    cases c.relation <;> simp [TableReference.resolvedEq_self]
  have hfo : ((columns.map fun c => (c, v)).find? fun f => c.refersTo f.1).isSome := by
    rw [find?_isSome]
    exact ⟨(c, v), mem_map.mpr ⟨c, hc, rfl⟩, hs⟩
  obtain ⟨f, hf⟩ := isSome_iff_exists.mp hfo
  obtain ⟨c', -, rfl⟩ := mem_map.mp (mem_of_find?_eq_some hf)
  rw [Row.get, hf, map_some, getD_some]

theorem evalExpr_mask {I db outer row} {v : V} (h : ∀ s ∈ mask.sources, ∃ c, s = .column c ∧ row.get I.null c = v) :
    evalExpr I db keepAll outer row mask = maskedValue I mask v := by
  refine evalExpr_congr fun s hs => ?_
  obtain ⟨c, rfl, hv⟩ := h s hs
  have hc : c ∈ mask.columns := mem_columns.mpr (column_mem_sources.mp hs)
  rw [Source.Same, hv, get_map_columns hc]

/-- A value that the column of the table has in a row, or none as in a row that an outer join has completed. -/
def ColumnHolds (I : Interp V) (db : Database V) (t : TableReference) (column : String) (v : V) : Prop :=
  v = I.null ∨ ∃ r ∈ db t, (column, v) ∈ r

/-- The mask that the session has for a column of a table. -/
def maskFor (E : ColumnMaskingEnforcer) (id : Identity) (t : TableReference) (column : String) : Option Expr :=
  E.lookupMask t column ∅ id

/-- What a value of the rewritten plan is to be, `w` being the one that the original plan hands on. -/
def Fits (E : ColumnMaskingEnforcer) (id : Identity) (I : Interp V) (db : Database V) : Origin → (v w : V) → Prop
  | .cell t n false, v, w => ColumnHolds I db t n w ∧ v = w
  | .cell t n true, v, w => ColumnHolds I db t n w ∧
      ∀ m, E.maskFor id t n = some m → v = maskedValue I m w ∨ (v = I.null ∧ w = I.null)
  | .other, _, _ => True

theorem fitting_fits (E : ColumnMaskingEnforcer) (id) (I) (db : Database V) : Fitting I db (E.Fits id I db) where
  other _ _ := trivial
  cell t r hr f hf := ⟨.inr ⟨r, hr, hf⟩, rfl⟩
  null o := by
    match o with
    | .other => trivial
    | .cell t n false => exact ⟨.inl rfl, rfl⟩
    | .cell t n true => exact ⟨.inl rfl, fun _ _ => .inr ⟨rfl, rfl⟩⟩

/-! ### References -/

/-- A mask in the place of a reference masks a value of the table's column once: the reference finds the value
as it is in the table, and what the mask reads is the field that the reference finds. A mask that reads nothing
may as well stand over itself. -/
def MasksOnce (E : ColumnMaskingEnforcer) (id : Identity) (H : Header) (c : Column) (mask : Expr) (t : TableReference)
    (column : String) : Prop :=
  E.maskFor id t column = some mask ∧
    (((∀ o ∈ H.found c, o = .cell t column false) ∧
        ∀ c' ∈ mask.columns, ∀ f o, (f, o) ∈ H → c'.refersTo f = c.refersTo f) ∨
      ((∀ o ∈ H.found c, ∃ masked, o = .cell t column masked) ∧ mask.sources = []))

/-- What a reference has become in the nodes that the rewrite looks at. -/
def reads (E : ColumnMaskingEnforcer) (id : Identity) (root : LogicalPlan) (H : Header) (c : Column) : Set Origin :=
  match E.maskOf (aliasTargets root) id c with
  | none => H.found c
  | some mask => {o | (∃ t n, E.MasksOnce id H c mask t n ∧ o = .cell t n true) ∨
      ((¬ ∃ t n, E.MasksOnce id H c mask t n) ∧ o = .other)}

theorem reads_of_none (h : E.maskOf (aliasTargets root) id c = none) (H) :
    E.reads id root H c = H.found c := by
  rw [reads, h]

theorem reads_of_masksOnce {H t n} (hm : E.maskOf (aliasTargets root) id c = some mask)
    (h : E.MasksOnce id H c mask t n) :
    E.reads id root H c = {.cell t n true} := by
  obtain ⟨o, ho⟩ := H.found_nonempty c
  have hc : ∀ {t n}, E.MasksOnce id H c mask t n → ∃ masked, o = .cell t n masked := by
    rintro t n ⟨-, ⟨hr, -⟩ | ⟨hc, -⟩⟩
    · exact ⟨false, hr o ho⟩
    · exact hc o ho
  unfold reads
  rw [hm]
  ext o'
  constructor
  · rintro (⟨t', n', h', rfl⟩ | ⟨hn, -⟩)
    · obtain ⟨_, rfl⟩ := hc h
      obtain ⟨_, heq⟩ := hc h'
      cases heq
      rfl
    · exact absurd ⟨t, n, h⟩ hn
  · rintro rfl
    exact .inl ⟨t, n, h, rfl⟩

theorem get_congr {c'} {row : Row V} (h : ∀ f ∈ row, c'.refersTo f.1 = c.refersTo f.1) (null) :
    row.get null c' = row.get null c := by
  unfold Row.get
  rw [find?_congr h]

variable {I : Interp V} {db : Database V} {outer row twin : Row V} {H : Header}

theorem fits_mask (hu : Unnested (E.maskOf (aliasTargets root) id))
    (hma : Matches (E.Fits id I db) H row twin)
    (hmk : E.maskOf (aliasTargets root) id c = some mask) {t} {n : String} (hon : E.MasksOnce id H c mask t n) :
    E.Fits id I db (.cell t n true) (evalExpr I db keepAll outer row mask) (twin.get I.null c) := by
  obtain ⟨hfo, hca⟩ := hon
  obtain ⟨o, ho, hfi⟩ := hma.get (fitting_fits E id I db) c
  rcases hca with ⟨hr, hsa⟩ | ⟨hce, hc⟩
  · obtain rfl := hr o ho
    obtain ⟨hh, heq⟩ := hfi
    refine ⟨hh, fun m hm => .inl ?_⟩
    obtain rfl : mask = m := some.inj (hfo.symm.trans hm)
    refine evalExpr_mask fun s hs => ?_
    obtain ⟨c', rfl, -⟩ := hu c mask hmk s hs
    have hc' : c' ∈ mask.columns := mem_columns.mpr (column_mem_sources.mp hs)
    refine ⟨c', rfl, (get_congr (fun f hf => ?_) I.null).trans heq⟩
    obtain ⟨o, ho⟩ := hma.exists_origin f hf
    exact hsa c' hc' f.1 o ho
  · obtain ⟨masked, rfl⟩ := hce o ho
    have hh : ColumnHolds I db t n (twin.get I.null c) := by
      cases masked with
      | false => exact hfi.1
      | true => exact hfi.1
    refine ⟨hh, fun m hm => .inl ?_⟩
    obtain rfl : mask = m := some.inj (hfo.symm.trans hm)
    exact evalExpr_mask (by simp [hc])

theorem fits_standIn (hu : Unnested (E.maskOf (aliasTargets root) id))
    (hm : Matches (E.Fits id I db) H row twin) (c) : ∃ o ∈ E.reads id root H c, E.Fits id I db o
      (evalExpr I db keepAll outer row (standIn (E.maskOf (aliasTargets root) id) c)) (twin.get I.null c) := by
  unfold reads standIn
  cases hma : E.maskOf (aliasTargets root) id c with
  | none => exact hm.get (fitting_fits E id I db) c
  | some mask =>
    by_cases ho : ∃ t n, E.MasksOnce id H c mask t n
    · obtain ⟨t, n, ho⟩ := ho
      exact ⟨.cell t n true, .inl ⟨t, n, ho, rfl⟩, fits_mask hu hm hma ho⟩
    · exact ⟨.other, .inr ⟨ho, rfl⟩, trivial⟩

theorem fits_substColumns (hu : Unnested (E.maskOf (aliasTargets root) id))
    (hm : Matches (E.Fits id I db) H row twin) (f) : ∀ e, ∃ o ∈ e.origins (E.reads id root H), E.Fits id I db o
      (evalExpr I db keepAll outer row ((e.mapSubqueries f).substColumns (standIn (E.maskOf (aliasTargets root) id))))
      (evalExpr I db keepAll outer twin e)
  | .column c => fits_standIn hu hm c
  | .aliasExpr e _ _ => by
    simp only [mapSubqueries, substColumns, evalExpr, origins]
    exact fits_substColumns hu hm f e
  | .outerReferenceColumn _ | .literal _ | .op _ _ | .scalarSubquery _ _ | .inSubquery _ _ _ _
  | .setComparison _ _ _ _ _ | .existsSubquery _ _ _ => ⟨.other, rfl, trivial⟩

theorem evalExpr_aliasBack (original e) :
    evalExpr I db keepAll outer row (aliasBack schemaName original e) = evalExpr I db keepAll outer row e := by
  unfold aliasBack
  split <;> simp only [evalExpr]

theorem evalExpr_maskedExpr {lookup} (hu : Unnested lookup) {e}
    (hav : (∃ c, e = .column c) ∨ Available (maskHit lookup fuel) e) :
    evalExpr I db keepAll outer row (maskedExpr schemaName fuel lookup e) =
      evalExpr I db keepAll outer row (e.substColumns (standIn lookup)) := by
  by_cases hc : ∃ c, e = .column c
  · obtain ⟨c, rfl⟩ := hc
    cases hm : lookup c <;>
      simp only [maskedExpr, hm, substColumns, standIn, getD_some, getD_none, evalExpr]
  · rw [maskedExpr_of_ne_column (not_exists.mp hc), evalExpr_aliasBack,
      substColumns_of_unnested hu (hav.resolve_left hc)]

theorem readsForItself_of_computes {p} (h : p.computes) : readsForItself p = false := by
  cases p with
  | node kind => cases kind <;> first | rfl | cases h
  | projection => rfl
  | tableScan | filter | subqueryAlias => cases h

theorem readsSoundly_maskedAt {act p}
    (hu : Unnested (E.maskOf (aliasTargets root) id)) (hc : p.computes) {e}
    (hok : ∃ t, E.maskAt schemaName fuel id root p (descended act e) = .ok t) :
    ReadsSoundly I db outer (E.Fits id I db) (E.reads id root) e
      (E.maskedAt schemaName fuel id root p (descended act e)) := by
  intro H row twin hm
  have hr := readsForItself_of_computes hc
  unfold maskAt at hok
  simp only [hr, Bool.false_eq_true, if_false] at hok
  simp only [maskedAt, hr, Bool.false_eq_true, if_false]
  rw [evalExpr_maskedExpr hu (maskExpr_ok_iff.mp hok)]
  exact fits_substColumns hu hm _ e

theorem changesExpressions_rewritten (schemaName) (fuel) (E : ColumnMaskingEnforcer) (id) (root) :
    ChangesExpressions (fun p => ∃ r, rewriteTree (E.visit schemaName fuel id) root p = .ok r)
      (rewritten (E.visit schemaName fuel id) root)
      (fun p e => E.maskedAt schemaName fuel id root p (descended (E.visit schemaName fuel id) e)) where
  inputs hp := (expressionWise_visit.rewriteTree_ok_iff.mp hp).2.2
  eq hp := by
    obtain ⟨r, hr⟩ := hp
    exact rewritten_visit_eq hr

/-! ## Once -/

/-- The field of the output is the column of the table, handed on as it is. -/
def Traces (I : Interp V) (columnsOf : TableReference → List String) (plan : LogicalPlan) (field : Column)
    (t : TableReference) (column : String) : Prop :=
  (∃ o, (field, o) ∈ header I columnsOf Header.found plan) ∧
    ∀ o, (field, o) ∈ header I columnsOf Header.found plan → o = .cell t column false

/-- On the way to a field of the output that is a masked column, one reference and no other is replaced by the
mask, it finds the column's value, and so does the mask. -/
def MasksOutputOnce (E : ColumnMaskingEnforcer) (id : Identity) (I : Interp V)
    (columnsOf : TableReference → List String) (plan : LogicalPlan) : Prop :=
  ∀ field t column, Traces I columnsOf plan field t column → ∀ mask, E.maskFor id t column = some mask →
    ∀ o, (field, o) ∈ header I columnsOf (E.reads id plan) plan → o = .cell t column true

/-- A row of the rewritten plan against its twin: the fields that are masked columns hold the masks of what the
twin holds, and that are values of the columns. -/
def MaskedRow (E : ColumnMaskingEnforcer) (id : Identity) (I : Interp V) (db : Database V)
    (columnsOf : TableReference → List String) (plan : LogicalPlan) (row twin : Row V) : Prop :=
  List.Forall₂ (fun f g => f.1 = g.1 ∧
    ∀ t column, Traces I columnsOf plan f.1 t column → ∀ mask, E.maskFor id t column = some mask →
      ColumnHolds I db t column g.2 ∧ (f.2 = maskedValue I mask g.2 ∨ (f.2 = I.null ∧ g.2 = I.null))) row twin

theorem maskedRow_of_matches {columnsOf plan} (hon : E.MasksOutputOnce id I columnsOf plan)
    (h : Matches (E.Fits id I db) (header I columnsOf (E.reads id plan) plan) row twin) :
    E.MaskedRow id I db columnsOf plan row twin := by
  refine Forall₂.imp (fun f g hfg => ?_) h
  obtain ⟨hname, o, ho, hf⟩ := hfg
  refine ⟨hname, fun t column ht mask hm => ?_⟩
  obtain rfl := hon f.1 t column ht mask hm o ho
  exact ⟨hf.1, hf.2 mask hm⟩

end Values

theorem sources_toExpr (kind : MaskKind) (c) : ∀ s ∈ (kind.toExpr (.column c)).sources, s = .column c := by
  cases kind <;>
    simp [toExpr, partialMask, nullSafe, whenOtherwise, asText,
      lit, sources, sourcesList]

/-- Masks that read columns by their unqualified names, as the named ones do, read no column that has a mask. -/
theorem unnested_of_unqualified (h : ∀ k, ∀ r ∈ E.masks.rulesAt k, ∀ s ∈ r.rule.sources, ∃ n, s = .column ⟨none, n⟩)
    (aliasMap) : Unnested (E.maskOf aliasMap id) := by
  intro c m hm s hs
  obtain ⟨k, r, hr, rfl⟩ := mem_rulesAt_of_maskOf hm
  obtain ⟨n, rfl⟩ := h k r hr s hs
  exact ⟨⟨none, n⟩, rfl, rfl⟩

/-! ### A derived table, a group key and a join -/

theorem traces_of_header_eq {V : Type} {I : Interp V} {columnsOf field t column}
    (h : header I columnsOf found plan = {(field, .cell t column false)}) :
    Traces I columnsOf plan field t column := by
  unfold Traces
  rw [h]
  exact ⟨⟨_, rfl⟩, fun o ho => (Prod.ext_iff.mp ho).2⟩

theorem header_aliasedScan {V : Type} (I : Interp V) (reads) (name t) :
    header I (fun _ => ["email"]) reads (.subqueryAlias name (.tableScan t none [] none)) =
      {(⟨some name, "email"⟩, .cell t "email" false)} := by
  have hs : header I (fun _ => ["email"]) reads (.tableScan t none [] none) =
      {(⟨some t, "email"⟩, .cell t "email" false)} := by
    ext x
    simp [header]
  exact header_subqueryAlias_of_eq I hs name

end ColumnMaskingEnforcer

end Dataglot
