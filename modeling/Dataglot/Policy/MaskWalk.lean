/-
What masking makes of an expression, and when it ends.

`replaceColumns` is a substitution of columns; the walk of `mask_expr` is one
whose replacements are masks that the walk has gone through in turn. It ends when
the masks it puts in do not lead back to themselves (`Unfolds`), and then the
number of masks it may unfold does not matter once it is large enough.
-/
import Mathlib
import Dataglot.DataFusion.Scope
import Dataglot.Policy.Mask

namespace Dataglot
open DataFusion Filter Expr Transformed Except LogicalPlan List

/-! ## Replacing columns -/

section Replace

variable {hit : Column → Option (Except DataFusionError Expr)}

/-- The replacement of a column, itself where there is none. -/
def replacement (hit : Column → Option (Except DataFusionError Expr)) (c : Column) : Expr :=
  match hit c with
  | some (.ok e) => e
  | _ => .column c

/-- Every replacement that a column has is there. -/
def Available (hit : Column → Option (Except DataFusionError Expr)) (e : Expr) : Prop :=
  ∀ c, .column c ∈ e.nodes → ∀ r, hit c = some r → ∃ x, r = .ok x

mutual

/-- When the walk succeeds, and with what: a change is reported if a column has a replacement. -/
theorem replaceColumns_ok_iff : ∀ {e t}, replaceColumns hit e = .ok t ↔
    Available hit e ∧ t = ⟨e.substColumns (replacement hit), e.columns.any fun c => (hit c).isSome⟩
  | .column c, t => by
    unfold replaceColumns Available
    cases hc : hit c with
    | none => simp [Expr.nodes, Expr.columns, Expr.substColumns, replacement, hc, Transformed.no, eq_comm]
    | some r =>
      cases r <;> simp [Expr.nodes, Expr.columns, Expr.substColumns, replacement, hc, Transformed.yes, eq_comm]
  | .aliasExpr e _ _, t | .inSubquery e _ _ _, t | .setComparison e _ _ _ _, t => by
    simp only [replaceColumns, Except.bind_ok_iff, Except.pure_ok_iff, @replaceColumns_ok_iff e]
    simp [Available, Expr.nodes, Expr.columns, Expr.substColumns, Transformed.map, eq_comm]
  | .op head args, t => by
    have ha : Available hit (.op head args) ↔ ∀ e ∈ args, Available hit e := by
      simp only [Available, Expr.nodes, Expr.nodesList_eq_flatMap, mem_cons, reduceCtorEq, false_or,
        mem_flatMap]
      exact ⟨fun h e he c hc => h c ⟨e, he, hc⟩, fun h c ⟨e, he, hc⟩ => h e he c hc⟩
    simp only [replaceColumns, Except.bind_ok_iff, Except.pure_ok_iff, @replaceColumnsList_ok_iff args]
    simp [ha, Expr.nodes, Expr.nodesList_eq_flatMap, Expr.columns, Expr.substColumns, Transformed.map, eq_comm]
  | .outerReferenceColumn _, t | .literal _, t | .scalarSubquery _ _, t | .existsSubquery _ _ _, t => by
    simp [replaceColumns, Available, Expr.nodes, Expr.columns, Expr.substColumns, Transformed.no, eq_comm]

theorem replaceColumnsList_ok_iff : ∀ {es t}, replaceColumnsList hit es = .ok t ↔ (∀ e ∈ es, Available hit e) ∧
      t = ⟨substColumnsList (replacement hit) es, (es.flatMap columns).any fun c => (hit c).isSome⟩
  | [], t => by simp [replaceColumnsList, substColumnsList, no, eq_comm]
  | e :: es, t => by
    simp only [replaceColumnsList, bind_ok_iff, pure_ok_iff, @replaceColumns_ok_iff e,
      @replaceColumnsList_ok_iff es, forall_mem_cons]
    simp [substColumnsList, and_assoc, eq_comm]

end

theorem exists_replaceColumns_iff {e} : (∃ t, replaceColumns hit e = .ok t) ↔ Available hit e := by
  simp [replaceColumns_ok_iff]

/-- Where no column has a replacement, the expression stays as it is. -/
theorem substColumns_replacement_of_not_any {e : Expr} (h : (e.columns.any fun c => (hit c).isSome) = false) :
    e.substColumns (replacement hit) = e := by
  have hn : ∀ c, .column c ∈ e.nodes → replacement hit c = .column c := by
    intro c hc
    have hc : hit c = none := by simpa using any_eq_false.mp h c (mem_columns.mpr hc)
    simp [replacement, hc]
  rw [substColumns_congr hn, substColumns_column]

end Replace

/-! ## The walk of `mask_expr` -/

section Walk

variable {lookup : Column → Option Expr}

/-- What the walk puts in for a column when it may unfold `n` masks. -/
def maskHit (lookup : Column → Option Expr) (n : Nat) (c : Column) : Option (Except DataFusionError Expr) :=
  match n with
  | 0 => (lookup c).map fun _ => .error .recursionLimit
  | n + 1 => (lookup c).map (goOnBelow (maskNested lookup n))

theorem maskNested_eq (n) : maskNested lookup n = replaceColumns (maskHit lookup n) := by
  cases n <;> rfl

/-- The masks below this one that the walk comes to are finitely many: none leads back to itself. -/
inductive Unfolds (lookup : Column → Option Expr) : Expr → Prop
  | column (c : Column) : Unfolds lookup (.column c)
  | further {mask : Expr} (h : ∀ c, .column c ∈ mask.nodes → ∀ m, lookup c = some m → Unfolds lookup m) :
      Unfolds lookup mask

variable {n : Nat} {e : Expr}

theorem goOnBelow_ok_iff {mask} : (∃ x, goOnBelow (maskNested lookup n) mask = .ok x) ↔
    (∃ c, mask = .column c) ∨ Available (maskHit lookup n) mask := by
  unfold goOnBelow
  split
  next c => simp
  next hne =>
    have hne' : ¬ ∃ c, mask = .column c := not_exists.mpr hne
    simp only [exists_bind_ok_iff, pure_ok_iff, exists_eq', and_true, maskNested_eq,
      exists_replaceColumns_iff, hne', false_or]

theorem available_maskHit_zero : Available (maskHit lookup 0) e ↔ ∀ c, .column c ∈ e.nodes → lookup c = none := by
  refine forall₂_congr fun c _ => ?_
  cases hc : lookup c <;> simp [maskHit, hc]

theorem available_maskHit_succ : Available (maskHit lookup (n + 1)) e ↔
    ∀ c, .column c ∈ e.nodes → ∀ m, lookup c = some m → ∃ x, goOnBelow (maskNested lookup n) m = .ok x := by
  refine forall₂_congr fun c _ => ?_
  cases hc : lookup c <;> simp [maskHit, hc]

theorem replacement_of_lookup_none {c} (h : lookup c = none) : replacement (maskHit lookup n) c = .column c := by
  cases n <;> simp [replacement, maskHit, h]

/-- What stands for a column that has a mask: the mask as it is, if it is a column, and else with its own columns
replaced. -/
theorem replacement_of_lookup {m c} (hav : Available (maskHit lookup n) e)
    (hc : .column c ∈ e.nodes) (hm : lookup c = some m) :
    (∃ c', m = .column c' ∧ replacement (maskHit lookup n) c = .column c') ∨ (∀ c', m ≠ .column c') ∧
        ∃ k, replacement (maskHit lookup n) c = m.substColumns (replacement (maskHit lookup k)) := by
  cases n with
  | zero =>
    rw [available_maskHit_zero.mp hav c hc] at hm
    cases hm
  | succ n =>
    obtain ⟨x, hx⟩ := available_maskHit_succ.mp hav c hc m hm
    have hr : replacement (maskHit lookup (n + 1)) c = x := by simp [replacement, maskHit, hm, hx]
    rw [hr]
    unfold goOnBelow at hx
    split at hx
    next c' =>
      cases hx
      exact .inl ⟨c', rfl, rfl⟩
    next hne =>
      simp only [bind_ok_iff, pure_ok_iff, maskNested_eq] at hx
      obtain ⟨t, ht, rfl⟩ := hx
      exact .inr ⟨hne, _, congrArg _ (replaceColumns_ok_iff.mp ht).2⟩

theorem unfolds_of_ok : ∀ {n mask}, (∃ x, goOnBelow (maskNested lookup n) mask = .ok x) → Unfolds lookup mask
  | n, mask, h => by
    rcases goOnBelow_ok_iff.mp h with ⟨c, rfl⟩ | h
    · exact .column c
    refine .further fun c hc m hm => ?_
    cases n with
    | zero =>
      rw [available_maskHit_zero.mp h c hc] at hm
      cases hm
    | succ n => exact unfolds_of_ok (available_maskHit_succ.mp h c hc m hm)

theorem eventually_available (h : ∀ c, .column c ∈ e.nodes → ∀ m, lookup c = some m →
      ∀ᶠ n in atTop, ∃ x, goOnBelow (maskNested lookup n) m = .ok x) :
    ∀ᶠ n in atTop, Available (maskHit lookup n) e := by
  have hf : {c | column c ∈ e.nodes}.Finite := by
    simpa only [← mem_columns] using finite_toSet e.columns
  have ha : ∀ᶠ n in atTop, ∀ c ∈ {c | column c ∈ e.nodes}, ∀ m, lookup c = some m →
      ∃ x, goOnBelow (maskNested lookup n) m = .ok x := by
    rw [eventually_all_finite hf]
    intro c hc
    cases hm : lookup c with
    | none => simp
    | some m => simpa using h c hc m hm
  obtain ⟨n, hn⟩ := eventually_atTop.mp ha
  refine eventually_atTop.mpr ⟨n + 1, fun k hk => ?_⟩
  obtain ⟨k, rfl⟩ : ∃ k', k = k' + 1 := ⟨k - 1, by omega⟩
  exact available_maskHit_succ.mpr (hn k (by omega))

theorem eventually_ok_of_unfolds {mask} (h : Unfolds lookup mask) :
    ∀ᶠ n in atTop, ∃ x, goOnBelow (maskNested lookup n) mask = .ok x := by
  induction h with
  | column c => exact .of_forall fun n => ⟨_, rfl⟩
  | further _ ih => exact (eventually_available ih).mono fun n hn => goOnBelow_ok_iff.mpr (.inr hn)

end Walk

/-! ## One expression -/

/-- The expression under the name of the original, if it has another. -/
def aliasBack (schemaName : Expr → String) (original e : Expr) : Expr :=
  if schemaName e = schemaName original then e else .aliasExpr e none (schemaName original)

/-- What `mask_expr` makes of an expression where it succeeds. -/
def maskedExpr (schemaName : Expr → String) (fuel : Nat) (lookup : Column → Option Expr) : Expr → Expr
  | .column c =>
    match lookup c with
    | some mask => .aliasExpr mask c.relation c.name
    | none => .column c
  | e => aliasBack schemaName e (e.substColumns (replacement (maskHit lookup fuel)))

theorem maskedExpr_of_ne_column {schemaName fuel lookup e}
    (h : ∀ c, e ≠ .column c) : maskedExpr schemaName fuel lookup e =
      aliasBack schemaName e (e.substColumns (replacement (maskHit lookup fuel))) := by
  cases e with
  | column c => exact absurd rfl (h c)
  | outerReferenceColumn | literal | aliasExpr | op | scalarSubquery | inSubquery | setComparison
  | existsSubquery => rfl

namespace ColumnMaskingEnforcer

variable {schemaName : Expr → String} {fuel : Nat} {E : ColumnMaskingEnforcer} {aliasMap : AliasMap} {id : Identity}

variable {e : Expr} {t : Transformed Expr} {root : LogicalPlan}

theorem maskExpr_eq_of_ok (h : E.maskExpr schemaName fuel e aliasMap id = .ok t) :
    t = ⟨maskedExpr schemaName fuel (E.maskOf aliasMap id) e,
      e.columns.any fun c => (E.maskOf aliasMap id c).isSome⟩ := by
  unfold maskExpr at h
  split at h
  next c =>
    cases hm : E.maskOf aliasMap id c <;> rw [hm] at h <;> cases h
    · simp [maskedExpr, columns, nodes, hm, no]
    · simp [maskedExpr, columns, nodes, hm, yes]
  next hne =>
    simp only [bind_ok_iff, pure_ok_iff, maskNested_eq, replaceColumns_ok_iff] at h
    obtain ⟨_, ⟨-, rfl⟩, rfl⟩ := h
    have hh : ∀ c, (maskHit (E.maskOf aliasMap id) fuel c).isSome = (E.maskOf aliasMap id c).isSome := by
      intro c
      cases fuel <;> simp [maskHit]
    simp only [maskedExpr_of_ne_column hne, aliasBack, ← hh]
    cases ha : e.columns.any fun c => (maskHit (E.maskOf aliasMap id) fuel c).isSome with
    | false => simp [substColumns_replacement_of_not_any ha, no]
    | true => split_ifs <;> simp_all [yes]

theorem maskExpr_transformed (h : E.maskExpr schemaName fuel e aliasMap id = .ok t) :
    t.transformed = true ↔ ∃ c, .column c ∈ e.nodes ∧ (E.maskOf aliasMap id c).isSome := by
  simp [maskExpr_eq_of_ok h, ← mem_columns]

theorem maskExpr_ok_iff : (∃ t, E.maskExpr schemaName fuel e aliasMap id = .ok t) ↔
    (∃ c, e = .column c) ∨ Available (maskHit (E.maskOf aliasMap id) fuel) e := by
  unfold maskExpr
  split
  next c =>
    have hc : ∃ c', column c = .column c' := ⟨c, rfl⟩
    cases E.maskOf aliasMap id c <;> simp
  next hne =>
    have hne' : ¬ ∃ c, e = .column c := not_exists.mpr hne
    simp only [exists_bind_ok_iff, pure_ok_iff, exists_eq', and_true, maskNested_eq,
      exists_replaceColumns_iff, hne', false_or]

/-! ## The rewrite -/

/-- What is done to an expression of a node. -/
def maskAt (schemaName : Expr → String) (fuel : Nat) (E : ColumnMaskingEnforcer) (id : Identity)
    (root node : LogicalPlan) (e : Expr) : Except DataFusionError (Transformed Expr) :=
  if readsForItself node then .ok (.no e) else E.maskExpr schemaName fuel e (aliasTargets root) id

theorem readsForItself_withNewExpressions (p es) :
    readsForItself (p.withNewExpressions es) = readsForItself p := by
  cases p with
  | node kind => cases kind <;> rfl
  | tableScan | filter | projection | subqueryAlias => rfl

theorem expressionWise_visit : ExpressionWise (E.visit schemaName fuel id) (E.maskAt schemaName fuel id) where
  visits {root node v} h := by
    unfold visit at h
    unfold maskAt
    split at h
    next hr =>
      cases h
      refine ⟨rfl, .no node.expressions, ?_, ?_⟩
      · simp only [hr, if_true, mapExprs_no]
      · cases node <;> rfl
    next hr =>
      simp only [mapExpressions, bind_ok_iff, pure_ok_iff] at h
      obtain ⟨_, ⟨es, hes, rfl⟩, rfl⟩ := h
      refine ⟨rfl, es, ?_, rfl⟩
      simp only [hr, Bool.false_eq_true, if_false]
      exact hes
  succeeds {root node es} h := by
    unfold maskAt at h
    unfold visit
    cases hr : readsForItself node with
    | true => simp
    | false =>
      simp only [hr, Bool.false_eq_true, if_false] at h ⊢
      simp only [mapExpressions, h]
      exact ⟨_, rfl⟩
  uniform root node es := by
    unfold maskAt
    simp only [readsForItself_withNewExpressions]

def maskedAt (schemaName : Expr → String) (fuel : Nat) (E : ColumnMaskingEnforcer) (id : Identity)
    (root node : LogicalPlan) (e : Expr) : Expr :=
  if readsForItself node then e else maskedExpr schemaName fuel (E.maskOf (aliasTargets root) id) e

theorem maskAt_data {node}
    (h : E.maskAt schemaName fuel id root node e = .ok t) : t.data = E.maskedAt schemaName fuel id root node e := by
  unfold maskAt at h
  unfold maskedAt
  split at h
  next hr =>
    cases h
    rw [if_pos hr, data_no]
  next hr => rw [if_neg hr, maskExpr_eq_of_ok h]

theorem rewritten_visit_eq {p r}
    (h : rewriteTree (E.visit schemaName fuel id) root p = .ok r) : rewritten (E.visit schemaName fuel id) root p =
      (p.withNewExpressions (p.expressions.map fun e =>
          E.maskedAt schemaName fuel id root p (descended (E.visit schemaName fuel id) e))).withNewInputs
        (p.inputs.map (rewritten (E.visit schemaName fuel id) root)) := by
  obtain ⟨es, hes, heq⟩ := expressionWise_visit.rewritten_eq h
  rw [heq, mapExprs_data (fun e _ t ht => maskAt_data ht) hes, List.map_map]
  rfl

theorem maskAt_descended_ok_iff {act node} : (∃ t, E.maskAt schemaName fuel id root node (descended act e) = .ok t) ↔
      readsForItself node ∨ (∃ c, e = .column c) ∨ Available (maskHit (E.maskOf (aliasTargets root) id) fuel) e := by
  have hav : ∀ hit, Available hit (descended act e) ↔ Available hit e := fun hit => by
    simp only [Available, descended, column_mem_nodes_mapSubqueries]
  have hc : (∃ c, descended act e = .column c) ↔ ∃ c, e = .column c := by
    simp only [descended, mapSubqueries_eq_column]
  unfold maskAt
  cases readsForItself node with
  | true => simp
  | false => simp [maskExpr_ok_iff, hav, hc]

/-! ### When it ends -/

/-- The masks that are put in below the top of an expression of the node come to an end. -/
def EndsAt (E : ColumnMaskingEnforcer) (id : Identity) (root : LogicalPlan) (_ : Scope) (node : LogicalPlan) : Prop :=
  readsForItself node = false → ∀ e ∈ node.expressions, (∀ c, e ≠ .column c) → ∀ c, .column c ∈ e.nodes →
    ∀ m, E.maskOf (aliasTargets root) id c = some m → Unfolds (E.maskOf (aliasTargets root) id) m

theorem eventually_ok {p outer} (h : EachNode enterScope (E.EndsAt id) root outer p) :
    ∀ᶠ fuel in atTop, ∃ r, rewriteTree (E.visit schemaName fuel id) root p = .ok r := by
  induction h with
  | @intro root p outer here _ _ hin hs =>
    have hi : ∀ᶠ fuel in atTop, ∀ i ∈ {i | i ∈ p.inputs}, ∃ r, rewriteTree (E.visit schemaName fuel id) root i = .ok r :=
      (eventually_all_finite (finite_toSet _)).mpr hin
    have hq : ∀ᶠ fuel in atTop, ∀ e ∈ {e | e ∈ p.expressions}, ∀ q ∈ {q | e.Embeds q},
        ∃ r, rewriteTree (E.visit schemaName fuel id) q q = .ok r :=
      (eventually_all_finite (finite_toSet _)).mpr fun e he =>
        (eventually_all_finite (finite_embeds e)).mpr fun q hq => hs e he q hq
    have he : ∀ᶠ fuel in atTop, ∀ e ∈ {e | e ∈ p.expressions}, readsForItself p ∨ (∃ c, e = .column c) ∨
        Available (maskHit (E.maskOf (aliasTargets root) id) fuel) e := by
      refine (eventually_all_finite (finite_toSet _)).mpr fun e he => ?_
      cases hr : readsForItself p with
      | true => simp
      | false =>
        by_cases hco : ∃ c, e = .column c
        · simp [hco]
        · refine (eventually_available fun c hc m hm => ?_).mono fun fuel h => .inr (.inr h)
          exact eventually_ok_of_unfolds (here hr e he (not_exists.mp hco) c hc m hm)
    filter_upwards [hi, hq, he] with fuel hi hq he
    exact expressionWise_visit.rewriteTree_ok_iff.mpr ⟨hq, fun e hme => maskAt_descended_ok_iff.mpr (he e hme), hi⟩

theorem endsAt_of_ok (p) : ∀ root, (∃ r, rewriteTree (E.visit schemaName fuel id) root p = .ok r) →
    ∀ outer, EachNode enterScope (E.EndsAt id) root outer p := by
  refine induct ?_ p
  intro p hin hex root h outer
  obtain ⟨hq, he, hi⟩ := expressionWise_visit.rewriteTree_ok_iff.mp h
  refine .intro ?_ (fun i hme => hin i hme root (hi i hme) outer)
    fun e hme q hq' => hex e hme q hq' q (hq e hme q hq') _
  intro hr e hme hne c hc m hm
  rcases maskAt_descended_ok_iff.mp (he e hme) with h | ⟨c, rfl⟩ | h
  · rw [hr] at h
    cases h
  · exact absurd rfl (hne c)
  · cases fuel with
    | zero =>
      rw [available_maskHit_zero.mp h c hc] at hm
      cases hm
    | succ n => exact unfolds_of_ok (available_maskHit_succ.mp h c hc m hm)

end ColumnMaskingEnforcer

end Dataglot
