/-
What column lineage reports, in terms of paths from an output column down to a table's
column. A step of a path leads from a column of a node to a column of one of its inputs.

Two kinds of steps are compared: those that the values of the query take, and those that
the analysis follows. A contribution is reported as an aggregation as soon as one path
that is followed goes through an aggregate, whatever the other paths do.
-/
import Dataglot.Core.ColumnLineage

namespace Dataglot
open DataFusion TransformationType LineageGraph List

/-! ## Paths -/

/-- A step from a column of a node to a column of another one, and whether it goes through an aggregate. -/
abbrev Step := LogicalPlan → Nat → LogicalPlan → Nat → Bool → Prop

namespace PlanData

variable (D : PlanData)

/-- A path from a column of a node down to a table's column; the flag is set if a step goes through an aggregate. -/
inductive Path (step : Step) : LogicalPlan → Nat → FieldRef → Bool → Prop
  | scan {t : TableReference} {projection : Option (List Nat)} {filters : List Expr} {fetch : Option Nat} {i : Nat}
      {n : String} (h : (projectedColumns (D.columnsOf t) projection)[i]? = some n) :
      Path step (.tableScan t projection filters fetch) i ⟨scanDataset t, n⟩ false
  | step {p q : LogicalPlan} {i j : Nat} {b : FieldRef} {s a : Bool} (hstep : step p i q j s)
      (rest : Path step q j b a) : Path step p i b (s || a)

/-- The expression reads a column of its input. -/
def ReadsColumn (schema : List Column) (e : Expr) (j : Nat) : Prop := ∃ c ∈ e.columns, indexOfColumn schema c = some j

/-- What the group columns of an aggregate hold: the group expressions, or those of a grouping set. -/
def groupKeys (detail : String) (exprs : List Expr) : List Expr :=
  match exprs.take (D.groupExprs detail) with
  | [.op head args] => if D.isGroupingSet head then args else [.op head args]
  | keys => keys

/-- A step from a column of a join to the side that it is from; the left side comes first. -/
def joinStep (type : JoinType) (leftWidth : Nat) (left right : LogicalPlan) (i : Nat) (q : LogicalPlan) (j : Nat) :
    Prop :=
  match type with
  | .inner | .left | .right | .full =>
    (i < leftWidth ∧ q = left ∧ j = i) ∨ (q = right ∧ i = leftWidth + j)
  | .leftSemi | .leftAnti | .leftMark => i < leftWidth ∧ q = left ∧ j = i
  | .rightSemi | .rightAnti | .rightMark => q = right ∧ j = i

/-- The steps of values: copies, and expressions over the values of one row. An aggregate hands on its group keys. -/
def Copies : Step
  | .tableScan _ _ _ _, _, _, _, _ => False
  | .filter _ input, i, q, j, s => q = input ∧ j = i ∧ s = false
  | .projection expr input _, i, q, j, s =>
    q = input ∧ s = false ∧ ∃ e, expr[i]? = some e ∧ ReadsColumn (D.planSchema input) e j
  | .subqueryAlias _ input, i, q, j, s => q = input ∧ j = i ∧ s = false
  | .node kind detail exprs inputs schema, i, q, j, s =>
    s = false ∧
      match kind, inputs with
      | .aggregate, [input] =>
        q = input ∧ ∃ e, (D.groupKeys detail exprs)[i]? = some e ∧ ReadsColumn (D.planSchema input) e j
      | .join, [left, right] => joinStep (D.joinType detail) (D.planSchema left).length left right i q j
      | .union, inputs => q ∈ inputs ∧ j = i ∧ i < schema.length
      | .sort, [input] | .limit, [input] | .repartition, [input] | .distinctAll, [input] => q = input ∧ j = i
      | _, _ => False

/-- The values of the output column can be copies or row-wise transformations of those of the table's column. -/
def ValuePath (plan : LogicalPlan) (i : Nat) (b : FieldRef) : Prop := D.Path D.Copies plan i b false

/-- The analysis takes the expression to refer to a column of its input. -/
def RefersToColumn (schema : List Column) (e : Expr) (j : Nat) : Prop := ∃ c ∈ e.columns, inputColumn schema c = some j

/-- The steps that the analysis follows. -/
def Follows : Step
  | .tableScan _ _ _ _, _, _, _, _ => False
  | .filter _ input, i, q, j, s =>
    q = input ∧ j = i ∧ s = false ∧ (D.lineageMap input).length = (D.planSchema input).length
  | .projection expr input _, i, q, j, s =>
    q = input ∧ s = false ∧ ∃ e, expr[i]? = some e ∧ RefersToColumn (D.planSchema input) e j
  | .subqueryAlias _ input, i, q, j, s => q = input ∧ j = i ∧ s = false
  | .node kind detail exprs inputs schema, i, q, j, s =>
    match kind with
    | .aggregate =>
      inputs = [q] ∧ schema.length = exprs.length ∧ ∃ e, exprs[i]? = some e ∧
        RefersToColumn (D.planSchema q) e j ∧ s = (decide (D.groupExprs detail ≤ i) && !isBare e)
    | .join => ∃ left right, inputs = [left, right] ∧ s = false ∧
        joinStep (D.joinType detail) (D.lineageMap left).length left right i q j
    | .union => q ∈ inputs ∧ j = i ∧ s = false ∧ i < schema.length
    | kind => inputs = [q] ∧ j = i ∧ s = false ∧
        (D.lineageMap q).length = (D.nodeSchema kind detail schema (D.planSchemas inputs)).length

end PlanData

/-! ## What is reported -/

/-- The contributions have the field; if the flag is set, as an aggregation. -/
def Reports (cs : List InputFieldContribution) (b : FieldRef) (a : Bool) : Prop :=
  ∃ c ∈ cs, c.field = b ∧ (a = true → c.transform = .aggregation)

variable {a : Bool} {b : FieldRef} {α : Type} {i : Nat} {map : List (List InputFieldContribution)}

theorem not_reports_nil : ¬ Reports [] b a := by
  rintro ⟨c, hc, -⟩
  cases hc

theorem reports_cons {c cs} :
    Reports (c :: cs) b a ↔ (c.field = b ∧ (a = true → c.transform = .aggregation)) ∨ Reports cs b a := by
  simp only [Reports, mem_cons, or_and_right, exists_or, exists_eq_left]

theorem combine_eq_aggregation {t t' : TransformationType} :
    t.combine t' = .aggregation ↔ t = .aggregation ∨ t' = .aggregation := by
  cases t <;> cases t' <;> simp [combine, rank]

theorem reports_mergeContribution {c} : ∀ {acc}, Reports (mergeContribution acc c) b a ↔ Reports (c :: acc) b a
  | [] => .rfl
  | e :: acc => by
    rw [mergeContribution, KeyedList.merge, ← mergeContribution]
    split_ifs with h
    · rw [reports_cons, reports_cons, reports_cons, InputFieldContribution.combine, combine_eq_aggregation, h]
      cases a
      · simp
      · simp
        tauto
    · rw [reports_cons, reports_mergeContribution, reports_cons, reports_cons, reports_cons]
      tauto

theorem reports_foldl {step} (adds : α → Prop)
    (hstep : ∀ acc x, Reports (step acc x) b a ↔ Reports acc b a ∨ adds x) : ∀ (xs : List α) acc,
      Reports (xs.foldl step acc) b a ↔ Reports acc b a ∨ ∃ x ∈ xs, adds x
  | [], acc => by simp
  | x :: xs, acc => by
    rw [foldl_cons, reports_foldl adds hstep xs, hstep, exists_mem_cons_iff, or_assoc]

theorem reports_foldl_merge (cs acc : List InputFieldContribution) :
    Reports (cs.foldl mergeContribution acc) b a ↔ Reports acc b a ∨ Reports cs b a :=
  reports_foldl _ (fun acc c => by rw [reports_mergeContribution, reports_cons, or_comm]) cs acc

/-- The contributions of a column, none if there is no such column. -/
def columnAt (map : List (List InputFieldContribution)) (i : Nat) : List InputFieldContribution := (map[i]?).getD []

theorem columnAt_map {f} {xs : List α} :
    Reports (columnAt (xs.map f) i) b a ↔ ∃ x, xs[i]? = some x ∧ Reports (f x) b a := by
  unfold columnAt
  rw [getElem?_map]
  cases xs[i]? with
  | none => simp [not_reports_nil]
  | some x => simp

theorem not_reports_unknown {width} : ¬ Reports (columnAt (unknownLineage width) i) b a := by
  unfold columnAt unknownLineage
  rw [getElem?_replicate]
  split_ifs <;> exact not_reports_nil

theorem reports_exprContributions {e schema extra} :
    Reports (exprContributions e schema map extra) b a ↔ ∃ j, PlanData.RefersToColumn schema e j ∧
      Reports (columnAt map j) b (a && !(decide (extra = .aggregation) && !isBare e)) := by
  have ht : ∀ c : InputFieldContribution,
      (a = true → (if isBare e then c.transform else c.transform.combine extra) = .aggregation) ↔
        ((a && !(decide (extra = .aggregation) && !isBare e)) = true → c.transform = .aggregation) := by
    intro c
    cases a <;> cases isBare e <;> by_cases h : extra = .aggregation <;> simp [h, combine_eq_aggregation]
  unfold exprContributions
  rw [reports_foldl fun c => ∃ j, inputColumn schema c = some j ∧
    Reports (columnAt map j) b (a && !(decide (extra = .aggregation) && !isBare e))]
  · simp only [not_reports_nil, false_or, PlanData.RefersToColumn, columnRefs, mem_dedup]
    constructor
    · rintro ⟨c, hc, j, hj, hr⟩
      exact ⟨j, ⟨c, hc, hj⟩, hr⟩
    · rintro ⟨j, ⟨c, hc, hj⟩, hr⟩
      exact ⟨c, hc, j, hj, hr⟩
  · intro acc c
    cases inputColumn schema c with
    | none => simp
    | some j =>
      dsimp only
      rw [reports_foldl _ fun acc c => by rw [reports_mergeContribution, reports_cons, or_comm]]
      simp only [ht, Option.some.injEq, exists_eq_left', Reports, columnAt]

theorem reports_passLineage {child width} :
    Reports (columnAt (passLineage child width) i) b a ↔ child.length = width ∧ Reports (columnAt child i) b a := by
  unfold passLineage
  split_ifs with h
  · rw [and_iff_right h]
  · exact iff_of_false not_reports_unknown fun ha => h ha.1

theorem getElem?_map_take_append_map_drop {β : Type} (f g : α → β) (n) (l : List α) (i) :
    ((l.take n).map f ++ (l.drop n).map g)[i]? = (l[i]?).map (if n ≤ i then g else f) := by
  by_cases hi : n ≤ i
  · rw [if_pos hi, getElem?_append_right (by rw [length_map, length_take]; omega), getElem?_map,
      getElem?_drop, length_map, length_take]
    by_cases hn : n ≤ l.length
    · rw [Nat.min_eq_left hn, Nat.add_sub_cancel' hi]
    · rw [getElem?_eq_none (by omega), getElem?_eq_none (by omega)]
  · rw [if_neg hi]
    by_cases hl : i < l.length
    · rw [getElem?_append_left (by rw [length_map, length_take]; omega), getElem?_map,
        getElem?_take_of_lt (by omega)]
    · rw [getElem?_eq_none (by simp; omega), getElem?_eq_none (by omega)]
      rfl

theorem reports_aggregateLineage {groups exprs schema inputSchema} :
    Reports (columnAt (aggregateLineage groups exprs schema inputSchema map) i) b a ↔
      schema.length = exprs.length ∧ ∃ e, exprs[i]? = some e ∧ ∃ j, PlanData.RefersToColumn inputSchema e j ∧
        Reports (columnAt map j) b (a && !(decide (groups ≤ i) && !isBare e)) := by
  unfold aggregateLineage
  by_cases h : schema.length = exprs.length
  · rw [if_neg (not_not.mpr h), and_iff_right h]
    unfold columnAt
    rw [getElem?_map_take_append_map_drop]
    cases exprs[i]? with
    | none => simp [not_reports_nil]
    | some e =>
      simp only [Option.map_some, Option.getD_some, Option.some.injEq, exists_eq_left']
      by_cases hi : groups ≤ i
      · simp [hi, reports_exprContributions, columnAt]
      · simp [hi, reports_exprContributions, columnAt]
  · rw [if_pos h]
    exact iff_of_false not_reports_unknown fun ha => h ha.1

theorem columnAt_append (l r i) :
    columnAt (l ++ r) i = if i < l.length then columnAt l i else columnAt r (i - l.length) := by
  unfold columnAt
  split_ifs with h
  · rw [getElem?_append_left h]
  · rw [getElem?_append_right (by omega)]

theorem lt_length_of_reports (h : Reports (columnAt map i) b a) : i < map.length := by
  by_contra hnot
  unfold columnAt at h
  rw [getElem?_eq_none (by omega)] at h
  exact not_reports_nil h

theorem reports_append_mark : Reports (columnAt (map ++ [[]]) i) b a ↔ Reports (columnAt map i) b a := by
  rw [columnAt_append]
  split_ifs with h
  · rfl
  · refine iff_of_false ?_ fun hr => h (lt_length_of_reports hr)
    exact @not_reports_unknown a b _ 1

theorem reports_mergeBranch : ∀ {out branch i}, Reports (columnAt (mergeBranch out branch) i) b a ↔
      Reports (columnAt out i) b a ∨ (i < out.length ∧ Reports (columnAt branch i) b a)
  | [], _, i => by simp [mergeBranch, columnAt, not_reports_nil]
  | o :: out, [], i => by simp [mergeBranch, columnAt, not_reports_nil]
  | o :: out, contribs :: branch, 0 => by simp [mergeBranch, columnAt, reports_foldl_merge]
  | o :: out, contribs :: branch, i + 1 => by
    have ih := @reports_mergeBranch out branch i
    simpa [mergeBranch, columnAt] using ih

theorem length_mergeBranch : ∀ out branch, (mergeBranch out branch).length = out.length
  | [], _ => rfl
  | _ :: _, [] => rfl
  | o :: out, contribs :: branch => by rw [mergeBranch, length_cons, length_mergeBranch, length_cons]

theorem reports_foldl_mergeBranch : ∀ (maps : List (List (List InputFieldContribution))) out,
      Reports (columnAt (maps.foldl mergeBranch out) i) b a ↔
        Reports (columnAt out i) b a ∨ (i < out.length ∧ ∃ m ∈ maps, Reports (columnAt m i) b a)
  | [], out => by simp
  | m :: maps, out => by
    rw [foldl_cons, reports_foldl_mergeBranch maps, reports_mergeBranch, length_mergeBranch,
      exists_mem_cons_iff]
    tauto

/-! ## One node -/

namespace PlanData

variable {D : PlanData}

theorem planSchemas_eq_map (ps) : D.planSchemas ps = ps.map D.planSchema := by
  induction ps with
  | nil => rfl
  | cons p ps ih => rw [planSchemas, ih, map_cons]

theorem lineageMaps_eq_map (ps) : D.lineageMaps ps = ps.map D.lineageMap := by
  induction ps with
  | nil => rfl
  | cons p ps ih => rw [lineageMaps, ih, map_cons]

/-- The column of a node that a step leads to, with what is asked of it. -/
def ReportsBelow (D : PlanData) (p : LogicalPlan) (i : Nat) (b : FieldRef) (a : Bool) : Prop :=
  ∃ q j s, D.Follows p i q j s ∧ Reports (columnAt (D.lineageMap q) j) b (a && !s)

variable {a : Bool} {b : FieldRef} {i : Nat} {type : JoinType} {exprs : List Expr} {inputs : List LogicalPlan}
  {schema : List Column} {p : LogicalPlan} {name : String}

theorem reports_join {left right} :
    Reports (columnAt (type.columns (D.lineageMap left) (D.lineageMap right) [] []) i) b a ↔
      ∃ q j, joinStep type (D.lineageMap left).length left right i q j ∧ Reports (columnAt (D.lineageMap q) j) b a := by
  have hl : Reports (columnAt (D.lineageMap left) i) b a ↔ ∃ q j,
      (i < (D.lineageMap left).length ∧ q = left ∧ j = i) ∧ Reports (columnAt (D.lineageMap q) j) b a := by
    constructor
    · intro h
      exact ⟨left, i, ⟨lt_length_of_reports h, rfl, rfl⟩, h⟩
    · rintro ⟨q, j, ⟨-, rfl, rfl⟩, h⟩
      exact h
  have hr : Reports (columnAt (D.lineageMap right) i) b a ↔ ∃ q j,
      (q = right ∧ j = i) ∧ Reports (columnAt (D.lineageMap q) j) b a := by
    constructor
    · intro h
      exact ⟨right, i, ⟨rfl, rfl⟩, h⟩
    · rintro ⟨q, j, ⟨rfl, rfl⟩, h⟩
      exact h
  have hb : Reports (columnAt (D.lineageMap left ++ D.lineageMap right) i) b a ↔ ∃ q j,
      ((i < (D.lineageMap left).length ∧ q = left ∧ j = i) ∨ (q = right ∧ i = (D.lineageMap left).length + j)) ∧
        Reports (columnAt (D.lineageMap q) j) b a := by
    rw [columnAt_append]
    constructor
    · intro h
      split_ifs at h with hi
      · exact ⟨left, i, .inl ⟨hi, rfl, rfl⟩, h⟩
      · exact ⟨right, _, .inr ⟨rfl, by omega⟩, h⟩
    · rintro ⟨q, j, ⟨hi, rfl, rfl⟩ | ⟨rfl, rfl⟩, h⟩
      · rwa [if_pos hi]
      · rwa [if_neg (by omega), Nat.add_sub_cancel_left]
  cases type with
  | inner | left | right | full => exact hb
  | leftSemi | leftAnti => exact hl
  | rightSemi | rightAnti => exact hr
  | leftMark => exact reports_append_mark.trans hl
  | rightMark => exact reports_append_mark.trans hr

theorem reports_aggregate {groups} :
    Reports (columnAt (match inputs.map D.planSchema, inputs.map D.lineageMap with
      | [inputSchema], [inputMap] => aggregateLineage groups exprs schema inputSchema inputMap
      | _, _ => unknownLineage schema.length) i) b a ↔
    ∃ q j s, (inputs = [q] ∧ schema.length = exprs.length ∧ ∃ e, exprs[i]? = some e ∧
      RefersToColumn (D.planSchema q) e j ∧ s = (decide (groups ≤ i) && !isBare e)) ∧
      Reports (columnAt (D.lineageMap q) j) b (a && !s) := by
  match inputs with
  | [] | _ :: _ :: _ => exact iff_of_false not_reports_unknown fun ⟨_, _, _, ⟨h, _⟩, _⟩ => by cases h
  | [input] =>
    refine reports_aggregateLineage.trans ?_
    constructor
    · rintro ⟨hl, e, he, j, hj, hr⟩
      exact ⟨input, j, _, ⟨rfl, hl, e, he, hj, rfl⟩, hr⟩
    · rintro ⟨q, j, s, ⟨hq, hl, e, he, hj, rfl⟩, hr⟩
      cases hq
      exact ⟨hl, e, he, j, hj, hr⟩

theorem reports_pass {width} : Reports (columnAt (match inputs.map D.lineageMap with
      | [child] => passLineage child width
      | _ => unknownLineage width) i) b a ↔
    ∃ q j s, (inputs = [q] ∧ j = i ∧ s = false ∧ (D.lineageMap q).length = width) ∧
      Reports (columnAt (D.lineageMap q) j) b (a && !s) := by
  match inputs with
  | [] | _ :: _ :: _ => exact iff_of_false not_reports_unknown fun ⟨_, _, _, ⟨h, _⟩, _⟩ => by cases h
  | [input] =>
    refine reports_passLineage.trans ?_
    constructor
    · rintro ⟨hl, hr⟩
      exact ⟨input, i, false, ⟨rfl, rfl, rfl, hl⟩, by rwa [Bool.not_false, Bool.and_true]⟩
    · rintro ⟨q, j, s, ⟨hq, rfl, rfl, hl⟩, hr⟩
      cases hq
      exact ⟨hl, by rwa [Bool.not_false, Bool.and_true] at hr⟩

/-- **One node.** What is reported of a column of a node is what is reported of the columns of its inputs to which
the analysis follows it; through an aggregate everything is reported as an aggregation. -/
theorem reports_node {kind : NodeKind} {detail} :
    Reports (columnAt (D.lineageMap (.node kind detail exprs inputs schema)) i) b a ↔
      D.ReportsBelow (.node kind detail exprs inputs schema) i b a := by
  rw [lineageMap, lineageMaps_eq_map, planSchemas_eq_map]
  cases kind with
  | aggregate => exact reports_aggregate
  | join =>
    match inputs with
    | [left, right] =>
      refine reports_join.trans ?_
      constructor
      · rintro ⟨q, j, hstep, hr⟩
        exact ⟨q, j, false, ⟨left, right, rfl, rfl, hstep⟩, by rwa [Bool.not_false, Bool.and_true]⟩
      · rintro ⟨q, j, s, ⟨_, _, heq, rfl, hstep⟩, hr⟩
        cases heq
        exact ⟨q, j, hstep, by rwa [Bool.not_false, Bool.and_true] at hr⟩
    | [] | [_] | _ :: _ :: _ :: _ =>
      exact iff_of_false not_reports_unknown fun ⟨_, _, _, ⟨_, _, h, _⟩, _⟩ => by cases h
  | union =>
    refine (reports_foldl_mergeBranch _ _).trans ?_
    rw [or_iff_right not_reports_unknown]
    simp only [unknownLineage, length_replicate, mem_map, exists_exists_and_eq_and]
    constructor
    · rintro ⟨hi, q, hq, hr⟩
      exact ⟨q, i, false, ⟨hq, rfl, rfl, hi⟩, by rwa [Bool.not_false, Bool.and_true]⟩
    · rintro ⟨q, j, s, ⟨hq, rfl, rfl, hi⟩, hr⟩
      exact ⟨hi, q, hq, by rwa [Bool.not_false, Bool.and_true] at hr⟩
  | _ =>
    refine reports_pass.trans ?_
    rw [← planSchemas_eq_map]
    rfl

theorem reports_below : ∀ {p}, (∀ t projection filters fetch, p ≠ .tableScan t projection filters fetch) →
    ∀ {i b a}, Reports (columnAt (D.lineageMap p) i) b a ↔ D.ReportsBelow p i b a
  | .tableScan _ _ _ _, h, _, _, _ => absurd rfl (h _ _ _ _)
  | .node _ _ _ _ _, _, _, _, _ => reports_node
  | .filter _ input, _, i, b, a => by
    rw [lineageMap, reports_passLineage]
    constructor
    · rintro ⟨hl, hr⟩
      exact ⟨input, i, false, ⟨rfl, rfl, rfl, hl⟩, by rwa [Bool.not_false, Bool.and_true]⟩
    · rintro ⟨q, j, s, ⟨rfl, rfl, rfl, hl⟩, hr⟩
      exact ⟨hl, by rwa [Bool.not_false, Bool.and_true] at hr⟩
  | .subqueryAlias _ input, _, i, b, a => by
    rw [lineageMap]
    constructor
    · intro hr
      exact ⟨input, i, false, ⟨rfl, rfl, rfl⟩, by rwa [Bool.not_false, Bool.and_true]⟩
    · rintro ⟨q, j, s, ⟨rfl, rfl, rfl⟩, hr⟩
      rwa [Bool.not_false, Bool.and_true] at hr
  | .projection expr input _, _, i, b, a => by
    rw [lineageMap, columnAt_map]
    simp only [reports_exprContributions, reduceCtorEq, decide_false, Bool.false_and, Bool.not_false, Bool.and_true]
    constructor
    · rintro ⟨e, he, j, hj, hr⟩
      exact ⟨input, j, false, ⟨rfl, rfl, e, he, hj⟩, by rwa [Bool.not_false, Bool.and_true]⟩
    · rintro ⟨q, j, s, ⟨rfl, rfl, e, he, hj⟩, hr⟩
      exact ⟨e, he, j, hj, by rwa [Bool.not_false, Bool.and_true] at hr⟩

/-! ## Whole plans -/

theorem joinStep_side {width left right q j} (h : joinStep type width left right i q j) : q ∈ [left, right] := by
  cases type with
  | inner | left | right | full =>
    rcases h with ⟨-, rfl, -⟩ | ⟨rfl, -⟩
    · exact mem_cons_self
    · exact mem_cons_of_mem _ mem_cons_self
  | leftSemi | leftAnti | leftMark =>
    rw [h.2.1]
    exact mem_cons_self
  | rightSemi | rightAnti | rightMark =>
    rw [h.1]
    exact mem_cons_of_mem _ mem_cons_self

theorem Follows.mem_inputs : ∀ {p q i j s}, D.Follows p i q j s → q ∈ p.inputs
  | .filter _ _, _, _, _, _, h | .projection _ _ _, _, _, _, _, h | .subqueryAlias _ _, _, _, _, _, h =>
    mem_singleton.mpr h.1
  | .node kind _ _ inputs _, q, _, _, _, h => by
    rw [LogicalPlan.inputs]
    cases kind with
    | join =>
      obtain ⟨left, right, rfl, -, hstep⟩ := h
      exact joinStep_side hstep
    | union => exact h.1
    | _ =>
      rw [h.1]
      exact mem_singleton_self q

/-- The analysis follows a path from the column to the table's column; if the flag is set, one through an aggregate. -/
def Led (D : PlanData) (p : LogicalPlan) (i : Nat) (b : FieldRef) (a : Bool) : Prop :=
  ∃ a', (a = true → a' = true) ∧ D.Path D.Follows p i b a'

theorem led_iff_step (h : ∀ t projection filters fetch, p ≠ .tableScan t projection filters fetch) :
    D.Led p i b a ↔ ∃ q j s, D.Follows p i q j s ∧ D.Led q j b (a && !s) := by
  constructor
  · rintro ⟨a', ha, hp⟩
    cases hp with
    | scan _ => exact absurd rfl (h _ _ _ _)
    | @step _ q _ j _ s a'' hstep rest =>
      refine ⟨q, j, s, hstep, a'', fun hb => ?_, rest⟩
      rw [Bool.and_eq_true, Bool.not_eq_true'] at hb
      simpa [hb.2] using ha hb.1
  · rintro ⟨q, j, s, hstep, a', ha, rest⟩
    refine ⟨s || a', fun ht => ?_, .step hstep rest⟩
    cases s with
    | true => rfl
    | false => exact ha (by rw [ht]; rfl)

/-- **What is reported**: the table columns to which a path is followed, and as an aggregation those to which one
is followed through an aggregate. -/
theorem reports_iff_led (p) : ∀ {i b a}, Reports (columnAt (D.lineageMap p) i) b a ↔ D.Led p i b a := by
  induction p using LogicalPlan.induct with
  | step =>
    intro p ih _ i b a
    by_cases hs : ∃ t projection filters fetch, p = .tableScan t projection filters fetch
    · obtain ⟨t, projection, filters, fetch, rfl⟩ := hs
      rw [lineageMap, columnAt_map]
      constructor
      · rintro ⟨n, hn, c, hc, rfl, ha⟩
        rw [mem_singleton.mp hc] at ha ⊢
        refine ⟨false, fun ht => ?_, .scan hn⟩
        cases ha ht
      · rintro ⟨a', ha, hp⟩
        cases hp with
        | @scan _ _ _ _ _ n hn => exact ⟨n, hn, _, mem_singleton_self _, rfl, fun ht => by cases ha ht⟩
        | step hstep _ => exact hstep.elim
    · have hno : ∀ t projection filters fetch, p ≠ .tableScan t projection filters fetch :=
        fun t projection filters fetch heq => hs ⟨t, projection, filters, fetch, heq⟩
      rw [reports_below hno, led_iff_step hno]
      constructor
      · rintro ⟨q, j, s, hstep, hr⟩
        exact ⟨q, j, s, hstep, (ih q hstep.mem_inputs).mp hr⟩
      · rintro ⟨q, j, s, hstep, hl⟩
        exact ⟨q, j, s, hstep, (ih q hstep.mem_inputs).mpr hl⟩

theorem led_false_iff : D.Led p i b false ↔ ∃ a, D.Path D.Follows p i b a := by
  simp [Led]

theorem led_true_iff : D.Led p i b true ↔ D.Path D.Follows p i b true := by
  simp [Led]

/-! ## One contribution for each field -/

def Distinct (cs : List InputFieldContribution) : Prop := (cs.map (·.field)).Nodup

theorem Distinct.merge {acc} (h : Distinct acc) (c) : Distinct (mergeContribution acc c) :=
  KeyedList.nodup_merge InputFieldContribution.field_combine c h

theorem Distinct.foldl {α : Type} {step}
    (hstep : ∀ acc x, Distinct acc → Distinct (step acc x)) : ∀ (xs : List α) {acc},
    Distinct acc → Distinct (xs.foldl step acc)
  | [], _, h => h
  | x :: xs, acc, h => Distinct.foldl hstep xs (hstep acc x h)

theorem distinct_nil : Distinct [] := nodup_nil

theorem distinct_exprContributions (e schema map extra) : Distinct (exprContributions e schema map extra) := by
  refine Distinct.foldl (fun acc c ha => ?_) _ distinct_nil
  split
  · exact ha
  · exact Distinct.foldl (fun acc contrib ha => ha.merge _) _ ha

def AllDistinct (map : List (List InputFieldContribution)) : Prop := ∀ cs ∈ map, Distinct cs

theorem allDistinct_unknown (width) : AllDistinct (unknownLineage width) := by
  intro cs hcs
  rw [(mem_replicate.mp hcs).2]
  exact distinct_nil

theorem AllDistinct.pass {child} (h : AllDistinct child) (width) : AllDistinct (passLineage child width) := by
  unfold passLineage
  split_ifs
  · exact h
  · exact allDistinct_unknown width

theorem AllDistinct.mergeBranch : ∀ {out branch}, AllDistinct out → AllDistinct (mergeBranch out branch)
  | [], _, h => h
  | _ :: _, [], h => h
  | o :: out, contribs :: branch, h => by
    obtain ⟨ho, hou⟩ := forall_mem_cons.mp h
    exact forall_mem_cons.mpr
      ⟨Distinct.foldl (fun acc c ha => ha.merge c) contribs ho, AllDistinct.mergeBranch hou⟩

theorem allDistinct_aggregate (groups exprs schema inputSchema map) :
    AllDistinct (aggregateLineage groups exprs schema inputSchema map) := by
  unfold aggregateLineage
  split_ifs
  · exact allDistinct_unknown _
  · intro cs hcs
    rcases mem_append.mp hcs with hcs | hcs
    · obtain ⟨e, -, rfl⟩ := mem_map.mp hcs
      exact distinct_exprContributions ..
    · obtain ⟨e, -, rfl⟩ := mem_map.mp hcs
      exact distinct_exprContributions ..

theorem allDistinct_join {left right} (hl : AllDistinct left)
    (hr : AllDistinct right) : AllDistinct (type.columns left right [] []) := by
  have hm : ∀ {side}, AllDistinct side → AllDistinct (side ++ [[]]) :=
    fun h => forall_mem_append.mpr ⟨h, forall_mem_singleton.mpr distinct_nil⟩
  cases type with
  | inner | left | right | full => exact forall_mem_append.mpr ⟨hl, hr⟩
  | leftSemi | leftAnti => exact hl
  | rightSemi | rightAnti => exact hr
  | leftMark => exact hm hl
  | rightMark => exact hm hr

theorem allDistinct_node {kind detail schemas maps}
    (h : ∀ m ∈ maps, AllDistinct m) : AllDistinct (D.nodeLineage kind detail exprs schema schemas maps) := by
  have hu : ∀ (maps : List (List (List InputFieldContribution))) {out}, AllDistinct out →
      AllDistinct (maps.foldl Dataglot.mergeBranch out) := by
    intro maps
    induction maps with
    | nil => exact fun h => h
    | cons m maps ih => exact fun h => ih h.mergeBranch
  unfold nodeLineage
  split
  · split
    · exact allDistinct_aggregate _ _ _ _ _
    · exact allDistinct_unknown _
  · split
    next left right => exact allDistinct_join (h left (by simp)) (h right (by simp))
    next => exact allDistinct_unknown _
  · exact hu maps (allDistinct_unknown _)
  · dsimp only
    split
    next child => exact (h child (by simp)).pass _
    next => exact allDistinct_unknown _

theorem allDistinct_lineageMap (p) : AllDistinct (D.lineageMap p) := by
  refine LogicalPlan.induct ?_ p
  intro p ih _
  cases p with
  | tableScan t projection _ _ =>
    intro cs hcs
    obtain ⟨n, -, rfl⟩ := mem_map.mp hcs
    exact nodup_singleton _
  | filter _ input => exact (ih input (mem_singleton_self input)).pass _
  | projection expr input _ =>
    intro cs hcs
    obtain ⟨e, -, rfl⟩ := mem_map.mp hcs
    exact distinct_exprContributions ..
  | subqueryAlias _ input => exact ih input (mem_singleton_self input)
  | node kind detail exprs inputs schema =>
    rw [lineageMap, lineageMaps_eq_map]
    refine allDistinct_node fun m hm => ?_
    obtain ⟨q, hq, rfl⟩ := mem_map.mp hm
    exact ih q hq

/-! ## Value paths and what is reported of them -/

theorem reported_value_iff {cs} (hd : Distinct cs) :
    (∃ c ∈ cs, c.field = b ∧ c.transform ≠ .aggregation) ↔ Reports cs b false ∧ ¬ Reports cs b true := by
  constructor
  · rintro ⟨c, hc, rfl, hv⟩
    refine ⟨⟨c, hc, rfl, nofun⟩, ?_⟩
    rintro ⟨c', hc', hf, ha⟩
    obtain rfl : c' = c := inj_on_of_nodup_map hd hc' hc hf
    exact hv (ha rfl)
  · rintro ⟨⟨c, hc, hf, -⟩, hn⟩
    exact ⟨c, hc, hf, fun ha => hn ⟨c, hc, hf, fun _ => ha⟩⟩

theorem columnLineage_getElem? {plan ofl} : (D.columnLineage plan)[i]? = some ofl ↔
      ∃ col cs, (D.planSchema plan)[i]? = some col ∧ (D.lineageMap plan)[i]? = some cs ∧ ofl = ⟨col.name, cs⟩ := by
  unfold columnLineage
  rw [getElem?_map]
  constructor
  · intro h
    obtain ⟨⟨col, cs⟩, hz, rfl⟩ := Option.map_eq_some_iff.mp h
    obtain ⟨hc, hcs⟩ := getElem?_zip_eq_some.mp hz
    exact ⟨col, cs, hc, hcs, rfl⟩
  · rintro ⟨col, cs, hc, hcs, rfl⟩
    have hz : ((D.planSchema plan).zip (D.lineageMap plan))[i]? = some (col, cs) :=
      getElem?_zip_eq_some.mpr ⟨hc, hcs⟩
    rw [hz]
    rfl

theorem reports_of_name_iff {plan} : (∃ ofl ∈ D.columnLineage plan, ofl.outputField = name ∧ Reports ofl.inputs b a) ↔
      ∃ i col, (D.planSchema plan)[i]? = some col ∧ col.name = name ∧ D.Led plan i b a := by
  constructor
  · rintro ⟨ofl, hm, rfl, hr⟩
    obtain ⟨i, hi⟩ := getElem?_of_mem hm
    obtain ⟨col, cs, hc, hcs, rfl⟩ := columnLineage_getElem?.mp hi
    refine ⟨i, col, hc, rfl, (reports_iff_led plan).mp ?_⟩
    rwa [columnAt, hcs]
  · rintro ⟨i, col, hc, rfl, hl⟩
    have hr := (reports_iff_led plan).mpr hl
    obtain ⟨cs, hcs⟩ : ∃ cs, (D.lineageMap plan)[i]? = some cs :=
      ⟨_, getElem?_eq_getElem (lt_length_of_reports hr)⟩
    rw [columnAt, hcs] at hr
    exact ⟨⟨col.name, cs⟩, mem_of_getElem? (columnLineage_getElem?.mpr ⟨col, cs, hc, hcs, rfl⟩), rfl, hr⟩

theorem eq_aggregation_of_le {x} (h : aggregation ≤ x) : x = .aggregation := by
  have hr : rank .aggregation ≤ x.rank := h
  cases x with
  | aggregation => rfl
  | identity | transformation => exact absurd hr (by decide)

theorem exists_isGreatest {S : Set TransformationType} (h : S.Nonempty) : ∃ x, IsGreatest S x := by
  by_cases ha : .aggregation ∈ S
  · exact ⟨.aggregation, ha, fun x _ => by cases x <;> decide⟩
  by_cases ht : .transformation ∈ S
  · refine ⟨.transformation, ht, fun x hx => ?_⟩
    cases x with
    | aggregation => exact absurd hx ha
    | identity | transformation => decide
  · obtain ⟨x, hx⟩ := h
    cases x with
    | aggregation => exact absurd hx ha
    | transformation => exact absurd hx ht
    | identity =>
      refine ⟨.identity, hx, fun y hy => ?_⟩
      cases y with
      | aggregation => exact absurd hy ha
      | transformation => exact absurd hy ht
      | identity => exact le_rfl

theorem mem_productEdges_iff {product lineage x} : (b, ⟨product, name⟩, x) ∈ productEdges (product, lineage) ↔
      ∃ ofl ∈ lineage, ofl.outputField = name ∧ ∃ c ∈ ofl.inputs, c.field = b ∧ c.transform = x := by
  simp only [productEdges, mem_flatMap, mem_map]
  constructor
  · rintro ⟨ofl, ho, c, hc, heq⟩
    cases heq
    exact ⟨ofl, ho, rfl, c, hc, rfl, rfl⟩
  · rintro ⟨ofl, ho, rfl, c, hc, rfl, rfl⟩
    exact ⟨ofl, ho, c, hc, rfl⟩

/-- The edge from a field to the product's column of a name is crossed when the field is reported for the name, and
not as an aggregation. -/
theorem crosses_addProduct_iff {product lineage} :
    (empty.addProduct product lineage).Crosses false b ⟨product, name⟩ ↔
      (∃ ofl ∈ lineage, ofl.outputField = name ∧ Reports ofl.inputs b false) ∧
        ¬ ∃ ofl ∈ lineage, ofl.outputField = name ∧ Reports ofl.inputs b true := by
  have hgr : empty.addProduct product lineage = addProducts [(product, lineage)] := rfl
  rw [hgr]
  unfold Crosses
  simp only [mem_allEdges_addProducts, mem_singleton, exists_eq_left, mem_productEdges_iff]
  constructor
  · rintro ⟨x, ⟨⟨ofl, ho, hname, c, hc, hf, rfl⟩, hg⟩, hcr⟩
    refine ⟨⟨ofl, ho, hname, c, hc, hf, nofun⟩, ?_⟩
    rintro ⟨ofl', ho', hname', c', hc', hf', ha⟩
    have hle : aggregation ≤ c.transform :=
      hg ⟨ofl', ho', hname', c', hc', hf', ha rfl⟩
    exact Bool.false_ne_true (hcr (eq_aggregation_of_le hle))
  · rintro ⟨⟨ofl, ho, hname, c, hc, hf, -⟩, hn⟩
    have hfi : ∃ x, IsGreatest {x | ∃ ofl ∈ lineage, ofl.outputField = name ∧
        ∃ c ∈ ofl.inputs, c.field = b ∧ c.transform = x} x :=
      exists_isGreatest ⟨c.transform, ofl, ho, hname, c, hc, hf, rfl⟩
    obtain ⟨x, hx⟩ := hfi
    refine ⟨x, hx, ?_⟩
    rintro rfl
    obtain ⟨⟨ofl', ho', hname', c', hc', hf', ha⟩, -⟩ := hx
    exact absurd ⟨ofl', ho', hname', c', hc', hf', fun _ => ha⟩ hn

/-- **Value paths are hidden by aggregates.** Every table column whose values an output column can have, as copies or
row-wise transformed, is reported as a contribution that is not an aggregation, and propagation crosses the edge
between them, if and only if the analysis follows some path between them and follows none through an aggregate from
an output column of that name. -/
theorem lineage_keeps_values_iff (D : PlanData) (plan : LogicalPlan) :
    (∀ (i : Nat) (col : Column) (b : FieldRef), (D.planSchema plan)[i]? = some col → D.ValuePath plan i b →
      (∃ ofl, (D.columnLineage plan)[i]? = some ofl ∧ ∃ c ∈ ofl.inputs, c.field = b ∧ c.transform ≠ .aggregation) ∧
      ∀ product : DatasetRef,
        (LineageGraph.empty.addProduct product (D.columnLineage plan)).Crosses false b ⟨product, col.name⟩) ↔
    ∀ (i : Nat) (col : Column) (b : FieldRef), (D.planSchema plan)[i]? = some col → D.ValuePath plan i b →
      (∃ a, D.Path D.Follows plan i b a) ∧
      ∀ (i' : Nat) (col' : Column), (D.planSchema plan)[i']? = some col' → col'.name = col.name →
        ¬ D.Path D.Follows plan i' b true := by
  refine forall₃_congr fun i col b => forall_congr' fun hc => forall_congr' fun _ => ?_
  have hre : (∃ ofl, (D.columnLineage plan)[i]? = some ofl ∧
      ∃ c ∈ ofl.inputs, c.field = b ∧ c.transform ≠ .aggregation) ↔ D.Led plan i b false ∧ ¬ D.Led plan i b true := by
    rw [← reports_iff_led, ← reports_iff_led]
    constructor
    · rintro ⟨ofl, ho, hv⟩
      obtain ⟨_, cs, -, hcs, rfl⟩ := columnLineage_getElem?.mp ho
      rw [columnAt, hcs]
      exact (reported_value_iff (allDistinct_lineageMap plan cs (List.mem_of_getElem? hcs))).mp hv
    · intro hr
      obtain ⟨cs, hcs⟩ : ∃ cs, (D.lineageMap plan)[i]? = some cs :=
        ⟨_, List.getElem?_eq_getElem (lt_length_of_reports hr.1)⟩
      rw [columnAt, hcs] at hr
      exact ⟨_, columnLineage_getElem?.mpr ⟨col, cs, hc, hcs, rfl⟩,
        (reported_value_iff (allDistinct_lineageMap plan cs (List.mem_of_getElem? hcs))).mpr hr⟩
  simp only [hre, crosses_addProduct_iff, reports_of_name_iff, ← led_false_iff, ← led_true_iff]
  constructor
  · rintro ⟨⟨hl, -⟩, hp⟩
    exact ⟨hl, fun i' col' hc' hname ha => (hp b.dataset).2 ⟨i', col', hc', hname, ha⟩⟩
  · rintro ⟨hl, hn⟩
    refine ⟨⟨hl, hn i col hc rfl⟩, fun _ => ⟨⟨i, col, hc, rfl, hl⟩, ?_⟩⟩
    rintro ⟨i', col', hc', hname, ha⟩
    exact hn i' col' hc' hname ha

theorem ValuePath.step {q j} (h : D.Copies p i q j false) (rest : D.ValuePath q j b) : D.ValuePath p i b :=
  Path.step h rest

/-! A table of one column, its values beside their maximum, and its values as the keys of a grouping set. -/

def emailTable : PlanData where
  columnsOf := fun _ => ["email"]
  joinType := fun _ => .inner
  groupExprs := fun detail => if detail = "GROUP BY ROLLUP (users.email)" then 1 else 0
  isGroupingSet := fun head => head = "ROLLUP"

def emailColumn : Column := ⟨some (.bare "users"), "email"⟩

def usersScan : LogicalPlan := .tableScan (.bare "users") none [] none

/-- `SELECT email FROM users UNION ALL SELECT max(email) FROM users`. -/
def emailsAndMaximum : LogicalPlan :=
  let maximum : Column := ⟨none, "max(users.email)"⟩
  let aggregate := .node .aggregate "" [.op "max" [.column emailColumn]] [usersScan] [maximum]
  .node .union "" [] [.projection [.column emailColumn] usersScan [emailColumn],
    .projection [.column maximum] aggregate [maximum]] [⟨none, "email"⟩]

/-- `SELECT email FROM users GROUP BY ROLLUP (email)`, without the projection around it. -/
def emailRollup : LogicalPlan :=
  .node .aggregate "GROUP BY ROLLUP (users.email)" [.op "ROLLUP" [.column emailColumn]] [usersScan]
    [emailColumn, ⟨none, "__grouping_id"⟩]

/-- The emails are in the output as they are, and are reported as an aggregation only, or not at all. -/
theorem lineage_hides_value_paths :
    let email : FieldRef := ⟨⟨"default", "public", "users"⟩, "email"⟩
    (emailTable.ValuePath emailsAndMaximum 0 email ∧
      emailTable.columnLineage emailsAndMaximum = [⟨"email", [⟨email, .aggregation⟩]⟩]) ∧
    emailTable.ValuePath emailRollup 0 email ∧
      emailTable.columnLineage emailRollup = [⟨"email", []⟩, ⟨"__grouping_id", []⟩] := by
  intro email
  have hs : emailTable.ValuePath usersScan 0 email :=
    .scan (show (projectedColumns ["email"] none)[0]? = some "email" from rfl)
  have hr : ReadsColumn (emailTable.planSchema usersScan) (.column emailColumn) 0 :=
    ⟨emailColumn, List.mem_singleton_self _, by decide⟩
  refine ⟨⟨?_, rfl⟩, ?_, rfl⟩
  · have hl : emailTable.ValuePath (.projection [.column emailColumn] usersScan [emailColumn]) 0 email := by
      refine ValuePath.step ?_ hs
      exact ⟨rfl, rfl, .column emailColumn, rfl, hr⟩
    refine ValuePath.step ?_ hl
    exact ⟨rfl, List.mem_cons_self, rfl, Nat.zero_lt_one⟩
  · refine ValuePath.step ?_ hs
    exact ⟨rfl, rfl, .column emailColumn, rfl, hr⟩

end PlanData

end Dataglot
