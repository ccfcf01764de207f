/-
When the mask rewrite comes to an end.

Below the top of an expression `transform_down` goes on in the mask that it has just put
in, so a mask leads to the masks of the columns that it mentions. The rewrite finishes iff
no mask that it puts in there leads back to itself. Once it finishes, more room for masks
makes no difference.
-/
import Dataglot.Library.Acyclic
import Dataglot.Policy.MaskWalk

namespace Dataglot
open DataFusion Filter Relation Option

/-! ## More room -/

/-- A replacement that gives the same and more. -/
structure GivesMore (hit hit' : Column → Option (Except DataFusionError Expr)) : Prop where
  none : ∀ c, hit c = none → hit' c = none
  ok : ∀ c e, hit c = some (.ok e) → hit' c = some (.ok e)

section More

variable {hit hit' : Column → Option (Except DataFusionError Expr)}

theorem replaceColumns_mono (hm : GivesMore hit hit') {e t}
    (h : replaceColumns hit e = .ok t) : replaceColumns hit' e = .ok t := by
  obtain ⟨hav, rfl⟩ := replaceColumns_ok_iff.mp h
  have heq : ∀ c, .column c ∈ e.nodes → hit' c = hit c := by
    intro c hc
    cases hr : hit c with
    | none => exact hm.none c hr
    | some r =>
      obtain ⟨x, rfl⟩ := hav c hc r hr
      exact hm.ok c x hr
  refine replaceColumns_ok_iff.mpr ⟨fun c hc r hr => hav c hc r (heq c hc ▸ hr), ?_⟩
  have hd : e.substColumns (replacement hit) = e.substColumns (replacement hit') :=
    Expr.substColumns_congr fun c hc => by rw [replacement, replacement, heq c hc]
  have ha : (e.columns.any fun c => (hit c).isSome) = e.columns.any fun c => (hit' c).isSome := by
    rw [Bool.eq_iff_iff, List.any_eq_true, List.any_eq_true]
    exact exists_congr fun c => and_congr_right fun hc => by rw [heq c (Expr.mem_columns.mp hc)]
  rw [hd, ha]

theorem goOnBelow_mono {walk walk'}
    (hw : ∀ e t, walk e = .ok t → walk' e = .ok t) {mask x} (h : goOnBelow walk mask = .ok x) :
    goOnBelow walk' mask = .ok x := by
  unfold goOnBelow at h ⊢
  split at h
  next c => exact h
  next =>
    simp only [Except.bind_ok_iff] at h ⊢
    obtain ⟨t, ht, h⟩ := h
    exact ⟨t, hw _ t ht, h⟩

end More

section Walk

variable {lookup : Column → Option Expr}

theorem givesMore_maskHit : ∀ {n m}, n ≤ m → GivesMore (maskHit lookup n) (maskHit lookup m)
  | 0, m, _ => by
    refine ⟨fun c h => ?_, fun c e h => ?_⟩
    · have hn : lookup c = none := map_eq_none_iff.mp h
      cases m <;> simp [maskHit, hn]
    · obtain ⟨_, -, h⟩ := map_eq_some_iff.mp h
      cases h
  | n + 1, 0, hle => absurd hle (Nat.not_succ_le_zero n)
  | n + 1, m + 1, hle => by
    have hm : GivesMore (maskHit lookup n) (maskHit lookup m) := givesMore_maskHit (Nat.le_of_succ_le_succ hle)
    refine ⟨fun c h => ?_, fun c e h => ?_⟩
    · exact map_eq_none_iff.mpr (map_eq_none_iff.mp h)
    · obtain ⟨mask, hma, h⟩ := map_eq_some_iff.mp h
      refine map_eq_some_iff.mpr ⟨mask, hma, goOnBelow_mono (fun e t ht => ?_) h⟩
      rw [maskNested_eq] at ht ⊢
      exact replaceColumns_mono hm ht

/-! ## Ways from mask to mask -/

/-- A mask that is put in leads to the masks of its columns. In one that is a column itself, the walk does not
look. -/
def LeadsTo (lookup : Column → Option Expr) (mask mask' : Expr) : Prop :=
  (∀ c, mask ≠ .column c) ∧ ∃ c, .column c ∈ mask.nodes ∧ lookup c = some mask'

theorem unfolds_iff_acc {mask} : Unfolds lookup mask ↔ Acc (Function.swap (LeadsTo lookup)) mask := by
  constructor
  · intro h
    induction h with
    | column c => exact .intro _ fun _ hl => absurd rfl (hl.1 c)
    | further _ ih =>
      refine .intro _ fun mask' hl => ?_
      obtain ⟨-, c, hc, hm⟩ := hl
      exact ih c hc mask' hm
  · intro h
    induction h with
    | intro mask _ ih =>
      by_cases hco : ∃ c, mask = .column c
      · obtain ⟨c, rfl⟩ := hco
        exact .column c
      · exact .further fun c hc m hm => ih m ⟨not_exists.mp hco, c, hc, hm⟩

/-- Of finitely many masks, those that come to an end lead to none that leads back to itself. -/
theorem unfolds_iff_no_cycle (hf : {m | ∃ c, lookup c = some m}.Finite) {mask} : Unfolds lookup mask ↔
      ∀ m, ReflTransGen (LeadsTo lookup) mask m → ¬ TransGen (LeadsTo lookup) m m := by
  rw [unfolds_iff_acc]
  refine Acyclic.acc_iff_no_cycle ((hf.insert mask).subset fun m hm => ?_)
  rcases hm.cases_tail with rfl | ⟨_, -, -, c, -, hc⟩
  · exact Set.mem_insert _ _
  · exact Set.mem_insert_of_mem _ ⟨c, hc⟩

end Walk

namespace ColumnMaskingEnforcer

variable {schemaName : Expr → String} {fuel fuel' : Nat} {E : ColumnMaskingEnforcer} {id : Identity}

theorem finite_masks (E : ColumnMaskingEnforcer) (aliasMap) (id) :
    {m | ∃ c, E.maskOf aliasMap id c = some m}.Finite := by
  refine (List.finite_toSet (E.masks.entries.flatMap fun e => e.2.map (·.rule))).subset ?_
  rintro m ⟨c, hc⟩
  unfold maskOf at hc
  split at hc
  · cases hc
  · obtain ⟨r, hr, rfl⟩ := mem_of_lookupMask hc
    obtain ⟨cand, -, hr⟩ := List.mem_flatMap.mp hr
    have hru := (List.mem_filter.mp hr).1
    unfold RuleMap.rulesAt at hru
    cases hl : E.masks.lookup (cand, c.name) with
    | none =>
      rw [hl] at hru
      cases hru
    | some rules =>
      rw [hl] at hru
      exact List.mem_flatMap.mpr ⟨_, AList.mem_lookup_iff.mp hl, List.mem_map_of_mem hru⟩

/-- In the expressions of the node that `rewrite` looks into, no mask that is put in below the top leads back to
itself, nor to one that does. -/
def NoLoopAt (E : ColumnMaskingEnforcer) (id : Identity) (root : LogicalPlan) (_ : Scope) (node : LogicalPlan) : Prop :=
  readsForItself node = false → ∀ e ∈ node.expressions, (∀ c, e ≠ .column c) → ∀ c, .column c ∈ e.nodes →
    ∀ mask, E.maskOf (aliasTargets root) id c = some mask →
      ∀ m, ReflTransGen (LeadsTo (E.maskOf (aliasTargets root) id)) mask m →
        ¬ TransGen (LeadsTo (E.maskOf (aliasTargets root) id)) m m

theorem noLoopAt_iff {root node outer} : E.NoLoopAt id root outer node ↔ E.EndsAt id root outer node := by
  unfold NoLoopAt EndsAt
  simp only [unfolds_iff_no_cycle (E.finite_masks (aliasTargets root) id)]

theorem maskExpr_mono (hle : fuel ≤ fuel') {aliasMap e t}
    (h : E.maskExpr schemaName fuel e aliasMap id = .ok t) : E.maskExpr schemaName fuel' e aliasMap id = .ok t := by
  unfold maskExpr at h ⊢
  split at h
  next c => exact h
  next =>
    simp only [Except.bind_ok_iff, maskNested_eq] at h ⊢
    obtain ⟨out, ho, h⟩ := h
    exact ⟨out, replaceColumns_mono (givesMore_maskHit hle) ho, h⟩

theorem visit_mono (hle : fuel ≤ fuel') {root node v}
    (h : E.visit schemaName fuel id root node = .ok v) : E.visit schemaName fuel' id root node = .ok v := by
  unfold visit LogicalPlan.mapExpressions at h ⊢
  split_ifs at h ⊢ with hreads
  · exact h
  · simp only [Except.bind_ok_iff] at h ⊢
    obtain ⟨out, ⟨es, hes, ho⟩, h⟩ := h
    exact ⟨out, ⟨es, mapExprs_mono (fun e t ht => maskExpr_mono hle ht) hes, ho⟩, h⟩

theorem rewrite_mono (hle : fuel ≤ fuel') {plan r}
    (h : E.rewrite schemaName fuel plan id = .ok r) : E.rewrite schemaName fuel' plan id = .ok r := by
  unfold rewrite at h ⊢
  split_ifs at h ⊢ with hempty
  · exact h
  · exact rewriteTree_mono (fun root node v hv => visit_mono hle hv) plan plan r h

/-- The rewrite comes to an end, iff no mask that is put in below the top of an expression leads back to itself. -/
theorem rewrite_finishes_iff (E : ColumnMaskingEnforcer) (schemaName : Expr → String) (plan : LogicalPlan)
    (id : Identity) :
    (∃ r, ∀ᶠ fuel in atTop, E.rewrite schemaName fuel plan id = .ok r) ↔
      EachNode enterScope (E.NoLoopAt id) plan [] plan := by
  by_cases he : E.masks.entries.isEmpty
  · refine iff_of_true ⟨.no plan, .of_forall fun fuel => if_pos he⟩ ?_
    refine eachNode_of_forall (fun root outer node _ e _ _ c _ m hm => ?_) _ _ _
    rw [maskOf_of_isEmpty he] at hm
    cases hm
  · constructor
    · rintro ⟨r, hr⟩
      obtain ⟨fuel, hf⟩ := hr.exists
      rw [rewrite, if_neg he] at hf
      exact (endsAt_of_ok plan plan ⟨r, hf⟩ []).imp fun _ _ _ => noLoopAt_iff.mpr
    · intro h
      have hen : EachNode enterScope (E.EndsAt id) plan [] plan := h.imp fun _ _ _ => noLoopAt_iff.mp
      have hok : ∀ᶠ fuel in atTop, ∃ r, rewriteTree (E.visit schemaName fuel id) plan plan = .ok r :=
        eventually_ok hen
      obtain ⟨fuel, r, hr⟩ := hok.exists
      have hf : E.rewrite schemaName fuel plan id = .ok r := by rw [rewrite, if_neg he, hr]
      exact ⟨r, (eventually_ge_atTop fuel).mono fun fuel' hle => rewrite_mono hle hf⟩

/-- A mask that reads the column it is for, by its qualified name: in an expression it is put into itself for
ever. -/
theorem self_mask_never_finishes :
    let email : Column := ⟨some (.bare "users"), "email"⟩
    let masks : List ColumnMask := [⟨.bare "users", "email", .op "substr" [.column email], none, none⟩]
    let plan : LogicalPlan :=
      .projection [.op "upper" [.column email]] (.tableScan (.bare "users") none [] none) [⟨none, "upper"⟩]
    let ann := Identity.ofUser "ann"
    ∃ E, ColumnMaskingEnforcer.new masks = .ok E ∧
      (∀ schemaName fuel, E.rewrite schemaName fuel plan ann = .error .recursionLimit) ∧
      ¬ EachNode enterScope (E.NoLoopAt ann) plan [] plan := by
  intro email masks plan ann
  obtain ⟨E, hE⟩ : ∃ E, ColumnMaskingEnforcer.new masks = .ok E := ⟨_, rfl⟩
  have hm : E.maskOf (aliasTargets plan) ann email = some (.op "substr" [.column email]) := by
    cases hE
    rfl
  refine ⟨E, hE, fun schemaName fuel => ?_, fun h => ?_⟩
  · have hn : ∀ f n,
        maskNested (E.maskOf (aliasTargets plan) ann) n (.op f [.column email]) = .error .recursionLimit := by
      intro f n
      induction n generalizing f with
      | zero =>
        simp only [maskNested, replaceColumns, replaceColumnsList, hm, Option.map_some]
        rfl
      | succ n ih =>
        simp only [maskNested, replaceColumns, replaceColumnsList, hm, Option.map_some, goOnBelow, ih]
        rfl
    have hv : E.visit schemaName fuel ann plan plan = .error .recursionLimit := by
      have he : E.maskExpr schemaName fuel (.op "upper" [.column email]) (aliasTargets plan) ann =
          .error .recursionLimit := by
        unfold maskExpr
        dsimp only
        rw [hn]
        rfl
      simp only [visit, LogicalPlan.mapExpressions, plan, LogicalPlan.expressions, mapExprs]
      rw [he]
      rfl
    have ht : E.rewrite schemaName fuel plan ann = rewriteTree (E.visit schemaName fuel ann) plan plan := by
      cases hE
      rfl
    rw [ht]
    change (E.visit schemaName fuel ann plan plan >>= fun v => settle _ v _) = _
    rw [hv]
    rfl
  · have hs : LeadsTo (E.maskOf (aliasTargets plan) ann) (.op "substr" [.column email])
        (.op "substr" [.column email]) := ⟨by simp, email, by simp [Expr.nodes, Expr.nodesList], hm⟩
    refine (eachNode_iff.mp h).1 rfl _ List.mem_cons_self (by simp) email ?_ _ hm _ .refl (.single hs)
    simp [Expr.nodes, Expr.nodesList]

end ColumnMaskingEnforcer

end Dataglot
