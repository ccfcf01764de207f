/-
What the row-filter enforcer does to a plan: `rewrite` gives the guarded plan of
the predicates it resolves, up to the filters of aliased scans that its walk
jumps over.
-/
import Dataglot.Policy.Guard

namespace Dataglot
open DataFusion Except LogicalPlan

/-! ## The enforcer's plan -/

namespace RowFilterEnforcer

variable {T : PredicateTyping} {E : RowFilterEnforcer} {id : Identity}

theorem visit_tableScan {root t projection filters fetch v}
    (h : E.visit T id root (.tableScan t projection filters fetch) = .ok v) :
    v.1.data = guardScan (E.resolvePredicate t id) (.tableScan t projection filters fetch) ∧
      (v.2 = .jump ↔ (E.resolvePredicate t id).isSome) := by
  simp only [visit] at h
  split at h
  next p hp =>
    obtain ⟨f, hf, hv⟩ := bind_ok_iff.mp h
    cases hv
    obtain rfl := filterTryNew_ok hf
    simp [hp, guardScan]
  next hp =>
    cases h
    simp [hp, guardScan]

theorem visit_aliasedScan {root name t projection filters fetch v}
    (h : E.visit T id root (.subqueryAlias name (.tableScan t projection filters fetch)) = .ok v) :
    v.1.data = guardScan ((E.resolvePredicate t id).map fun p => requalifyColumns p name)
        (.subqueryAlias name (.tableScan t projection filters fetch)) ∧
      (v.2 = .jump ↔ (E.resolvePredicate t id).isSome) := by
  simp only [visit] at h
  split at h
  next p hp =>
    obtain ⟨f, hf, hv⟩ := bind_ok_iff.mp h
    cases hv
    obtain rfl := filterTryNew_ok hf
    simp [hp, guardScan]
  next hp =>
    cases h
    simp [hp, guardScan]

theorem visit_of_not_isScan {root p} (h : ¬ IsScan p) (es) :
    E.visit T id root (p.withNewExpressions es) = .ok (.no (p.withNewExpressions es), .cont) := by
  cases p with
  | tableScan => exact absurd (.bare ..) h
  | filter | projection | node => rfl
  | subqueryAlias name input =>
    cases input with
    | tableScan => exact absurd (.aliased ..) h
    | filter | projection | node | subqueryAlias => rfl

/-- What the walk makes of a plan. -/
theorem rewriteTree_data (p) : ∀ root r,
    rewriteTree (E.visit T id) root p = .ok r → r.data = guardPlan (E.resolvePredicate · id) false p := by
  refine induct ?_ p
  intro p hin hex root r h
  rw [rewriteTree_eq] at h
  simp only [bind_ok_iff] at h
  obtain ⟨es, hes, v, hv, h⟩ := h
  have hes : es.data = guardExprs (E.resolvePredicate · id) false p.expressions := by
    rw [guardExprs_eq]
    exact rewriteExprs_data (fun e he q hq r hr => hex e he q hq q r hr) hes
  have his : ∀ {is}, rewriteTrees (E.visit T id) root p.inputs = .ok is →
      is.data = p.inputs.map (guardPlan (E.resolvePredicate · id) false) :=
    fun h => rewriteTrees_data (fun q hq r hr => hin q hq root r hr) h
  by_cases hs : IsScan p
  · cases hs with
    | bare t projection filters fetch =>
      obtain ⟨hd, hj⟩ := visit_tableScan hv
      rw [hes] at hd
      rcases settle_ok h with ⟨-, hr⟩ | ⟨hc, is, -, hr⟩
      · rw [hr, hd, guardPlan]
        rfl
      · have hn : E.resolvePredicate t id = none := by simpa [hc] using hj
        rw [hr, hd, guardPlan, hn]
        rfl
    | aliased name t projection filters fetch =>
      obtain ⟨hd, hj⟩ := visit_aliasedScan hv
      rcases settle_ok h with ⟨ht, hr⟩ | ⟨hc, is, hi, hr⟩
      · have hso : (E.resolvePredicate t id).isNone = false := by simpa using hj.mp ht
        rw [hr, hd, guardPlan, hso]
        rfl
      · have hn : E.resolvePredicate t id = none := by simpa [hc] using hj
        rw [hr, hd, his hi]
        simp [guardPlan, guardScan, hn, withNewInputs, inputs]
  · rw [visit_of_not_isScan hs] at hv
    cases hv
    rcases settle_ok h with ⟨hj, -⟩ | ⟨-, is, hi, hr⟩
    · cases hj
    · rw [hr, his hi, Transformed.data_no, hes, guardPlan_of_not_isScan hs]

/-! ## Rewriting a second time

The rewrite fails only where a predicate does not type. Over a guarded plan the same predicates are
typed over the same scans, so it succeeds again. -/

section Again

variable {root : LogicalPlan}

theorem ok_tableScan {t projection filters fetch} :
    (∃ r, rewriteTree (E.visit T id) root (.tableScan t projection filters fetch) = .ok r) ↔
      (∀ e ∈ filters, ∀ q, e.Embeds q → ∃ r, rewriteTree (E.visit T id) q q = .ok r) ∧
        ∀ p, E.resolvePredicate t id = some p →
          T p (.tableScan t projection (guardExprs (E.resolvePredicate · id) false filters) fetch) = none := by
  rw [← rewriteExprs_ok_iff]
  have hd : ∀ fs, rewriteExprs (E.visit T id) filters = .ok fs →
      fs.data = guardExprs (E.resolvePredicate · id) false filters := fun fs h => by
    rw [guardExprs_eq]
    exact rewriteExprs_data (fun e _ q _ r hr => rewriteTree_data q q r hr) h
  have hvi : ∀ fs, (∃ v, E.visit T id root (.tableScan t projection fs fetch) = .ok v) ↔
      ∀ p, E.resolvePredicate t id = some p → T p (.tableScan t projection fs fetch) = none := fun fs => by
    simp only [visit]
    cases ht : E.resolvePredicate t id with
    | none => simp
    | some p =>
      simp only [exists_bind_ok_iff, pure_ok_iff, exists_eq', and_true, filterTryNew_ok_iff,
        Option.some.injEq, forall_eq']
  simp only [rewriteTree, exists_bind_ok_iff, settle_ok_iff]
  constructor
  · rintro ⟨fs, hfs, v, hv, -⟩
    exact ⟨⟨fs, hfs⟩, hd fs hfs ▸ (hvi fs.data).mp ⟨v, hv⟩⟩
  · rintro ⟨⟨fs, hfs⟩, hT⟩
    obtain ⟨v, hv⟩ := (hvi fs.data).mpr (hd fs hfs ▸ hT)
    exact ⟨fs, hfs, v, hv, fun _ => ⟨_, rfl⟩⟩

theorem ok_aliasedScan {name t projection filters fetch} :
    (∃ r, rewriteTree (E.visit T id) root (.subqueryAlias name (.tableScan t projection filters fetch)) = .ok r) ↔
      match E.resolvePredicate t id with
      | some p => T (requalifyColumns p name) (.subqueryAlias name (.tableScan t projection filters fetch)) = none
      | none => ∃ r, rewriteTree (E.visit T id) root (.tableScan t projection filters fetch) = .ok r := by
  rw [rewriteTree_eq]
  simp only [expressions, inputs, rewriteExprs, withNewExpressions,
    exists_bind_ok_iff, ok.injEq, exists_eq_left', settle_ok_iff, rewriteTrees_ok_iff,
    List.mem_singleton, forall_eq, visit]
  cases ht : E.resolvePredicate t id with
  | none => simp
  | some p =>
    simp only [bind_ok_iff, pure_ok_iff, ← filterTryNew_ok_iff]
    constructor
    · rintro ⟨v, ⟨f, hf, -⟩, -⟩
      exact ⟨f, hf⟩
    · rintro ⟨f, hf⟩
      exact ⟨_, ⟨f, hf, rfl⟩, by simp⟩

theorem ok_of_not_isScan {p} (h : ¬ IsScan p) : (∃ r, rewriteTree (E.visit T id) root p = .ok r) ↔
      (∀ e ∈ p.expressions, ∀ q, e.Embeds q → ∃ r, rewriteTree (E.visit T id) q q = .ok r) ∧
        ∀ i ∈ p.inputs, ∃ r, rewriteTree (E.visit T id) root i = .ok r := by
  rw [rewriteTree_eq, ← rewriteExprs_ok_iff, ← rewriteTrees_ok_iff]
  simp only [visit_of_not_isScan h, exists_bind_ok_iff, ok.injEq, exists_eq_left', settle_ok_iff,
    true_imp_iff, exists_and_right]

/-- A rewrite of the guarded plan succeeds where the rewrite of the plan did. -/
theorem rewriteTree_again (hT : T.IgnoresFilters)
    (hg : ∀ t p, E.resolvePredicate t id = some p → ∀ q, ¬ p.Embeds q) (p) :
    ∀ root, (∃ r, rewriteTree (E.visit T id) root p = .ok r) →
      ∀ root', ∃ r, rewriteTree (E.visit T id) root' (guardPlan (E.resolvePredicate · id) false p) = .ok r := by
  refine induct ?_ p
  intro p hin hex root h root'
  have hes : (∀ e ∈ p.expressions, ∀ q, e.Embeds q → ∃ r, rewriteTree (E.visit T id) q q = .ok r) →
      ∀ e ∈ guardExprs (E.resolvePredicate · id) false p.expressions, ∀ q, e.Embeds q →
        ∃ r, rewriteTree (E.visit T id) q q = .ok r := by
    intro h e he q hq
    rw [guardExprs_eq] at he
    obtain ⟨e', he', q', hq', rfl⟩ := Expr.embeds_mapSubqueriesList.mp ⟨e, he, hq⟩
    exact hex e' he' q' hq' q' (h e' he' q' hq') _
  -- the filter around a scan has a predicate without subqueries, which is no obstacle
  have hf : ∀ {predicate : Expr} {scan}, (∀ q, ¬ predicate.Embeds q) →
      (∃ r, rewriteTree (E.visit T id) root' scan = .ok r) →
        ∃ r, rewriteTree (E.visit T id) root' (.filter predicate.unaliasNested scan) = .ok r := by
    intro predicate scan hp hs
    have hn : ¬ IsScan (.filter predicate.unaliasNested scan) := nofun
    refine (ok_of_not_isScan hn).mpr ⟨?_, ?_⟩
    · simp only [expressions, List.mem_singleton, forall_eq]
      exact fun q hq => absurd (Expr.embeds_unaliasNested.mp hq) (hp q)
    · simpa [inputs] using hs
  by_cases hs : IsScan p
  · cases hs with
    | bare t projection filters fetch =>
      obtain ⟨hfs, hty⟩ := ok_tableScan.mp h
      have hs : ∃ r, rewriteTree (E.visit T id) root'
          (.tableScan t projection (guardExprs (E.resolvePredicate · id) false filters) fetch) = .ok r :=
        ok_tableScan.mpr ⟨hes hfs, fun p hp => hT p t projection _ _ fetch ▸ hty p hp⟩
      rw [guardPlan]
      cases ht : E.resolvePredicate t id with
      | none => exact hs
      | some predicate => exact hf (hg t predicate ht) hs
    | aliased name t projection filters fetch =>
      have h := ok_aliasedScan.mp h
      cases ht : E.resolvePredicate t id with
      | none =>
        rw [ht] at h
        have hi := hin _ (by simp [inputs]) root h root'
        simp only [guardPlan, ht, guardScan, Option.map_none, Option.isNone_none, Bool.or_true, if_true] at hi ⊢
        exact ok_aliasedScan.mpr (by rw [ht]; exact hi)
      | some predicate =>
        rw [ht] at h
        simp only [guardPlan, ht, guardScan, Option.map_some, Option.isNone_some, Bool.or_self,
          Bool.false_eq_true, if_false]
        refine hf (fun q hq => ?_) (ok_aliasedScan.mpr (by rw [ht]; exact h))
        exact hg t predicate ht q ((Expr.embeds_substColumns.mp hq).resolve_right (by simp))
  · obtain ⟨hes', his⟩ := (ok_of_not_isScan hs).mp h
    refine (ok_of_not_isScan (not_isScan_guardPlan hs)).mpr ?_
    rw [expressions_guardPlan hs, inputs_guardPlan hs, List.forall_mem_map]
    exact ⟨hes hes', fun q hq => hin q hq root (his q hq) root'⟩

end Again

/-! ## The rewrite -/

theorem rewrite_data {plan r} (h : E.rewrite T plan id = .ok r) :
    r.data = guardPlan (E.resolvePredicate · id) false plan := by
  unfold rewrite at h
  split at h
  next he =>
    cases h
    exact (guardPlan_eq_self_iff.mpr fun t _ => resolvePredicate_of_isEmpty he t).symm
  next => exact rewriteTree_data plan plan r h

theorem rewrite_again (hT : T.IgnoresFilters)
    (hg : ∀ t p, E.resolvePredicate t id = some p → ∀ q, ¬ p.Embeds q) {plan r} (h : E.rewrite T plan id = .ok r) :
    ∃ r', E.rewrite T r.data id = .ok r' := by
  rw [rewrite_data h]
  unfold rewrite at h ⊢
  split
  next => exact ⟨_, rfl⟩
  next he =>
    rw [if_neg he] at h
    exact rewriteTree_again hT hg plan plan ⟨r, h⟩ _

/-- **When row filtering is complete**: for predicates without subqueries, the rewritten plan has every
governed scan under its filter and is otherwise as it was, computes from each governed scan just the
rows that satisfy its predicate and is not changed in its result by a second rewrite, exactly when no
aliased governed scan reads a governed table in a subquery among its own filters. -/
theorem rewrite_complete_iff (hT : T.IgnoresFilters) {rules : List RowFilter} (hE : new rules = .ok E)
    (hrules : ∀ f ∈ rules, ∀ q, ¬ f.predicate.Embeds q) {plan : LogicalPlan} {r : Transformed LogicalPlan}
    (hr : E.rewrite T plan id = .ok r) :
    (r.data = guardPlan (E.resolvePredicate · id) true plan ∧
      (∀ (V : Type) (I : Interp V) (db : Database V) (outer : Row V), evalPlan I db keepAll outer r.data =
        evalPlan I db (governedKeep I db (E.resolvePredicate · id)) outer plan) ∧
      ∃ r', E.rewrite T r.data id = .ok r' ∧ ∀ (V : Type) (I : Interp V) (db : Database V) (outer : Row V),
        evalPlan I db keepAll outer r'.data = evalPlan I db keepAll outer r.data) ↔
      JumpFree (E.resolvePredicate · id) plan := by
  have hg : ∀ t p, E.resolvePredicate t id = some p → ∀ q, ¬ p.Embeds q := by
    intro t p hp
    refine resolvePredicate_all (P := fun p => ∀ q, ¬ p.Embeds q) (fun p q hp hq s => ?_) (fun k rule hru => ?_) hp
    · simp [hp s, hq s]
    · rw [filters_of_new hE] at hru
      obtain ⟨f, hf, rfl⟩ := List.mem_map.mp hru
      exact hrules f (List.mem_filter.mp hf).1
  rw [← guardPlan_false_eq_true_iff, ← rewrite_data hr]
  refine ⟨fun h => h.1, fun h => ⟨h, ?_, ?_⟩⟩
  · intro V I db outer
    rw [h, evalPlan_guardPlan]
  · obtain ⟨r', hr'⟩ := rewrite_again hT hg hr
    refine ⟨r', hr', fun V I db outer => ?_⟩
    rw [rewrite_data hr', rewrite_data hr, evalPlan_guardPlan_twice hg]

theorem rewrite_complete_aliased_scan :
    let visible : Expr := .column ⟨some (.bare "orders"), "visible"⟩
    let rules : List RowFilter := [⟨.bare "orders", visible, none, none⟩]
    let plan : LogicalPlan := .filter (.existsSubquery (.tableScan (.bare "orders") none [] none) [] true)
      (.subqueryAlias (.bare "o") (.tableScan (.full "pg" "public" "orders") none [] none))
    ∃ E r, new rules = .ok E ∧ E.rewrite (fun _ _ => none) plan .anonymous = .ok r ∧
      r.data = guardPlan (E.resolvePredicate · .anonymous) true plan := by
  intro visible rules plan
  have hr : ∀ f ∈ rules, ∀ q, ¬ f.predicate.Embeds q := by simp [rules, visible]
  have hT : PredicateTyping.IgnoresFilters fun _ _ => none := fun _ _ _ _ _ _ => rfl
  refine ⟨_, _, rfl, rfl, ?_⟩
  exact ((rewrite_complete_iff hT rfl hr rfl).mpr (guardPlan_false_eq_true_iff.mp rfl)).1

/-- Values are booleans and a subquery in a condition tests for a row. -/
def boolInterp : Interp Bool where
  null := false
  literal v := v == .boolean true
  op _ args := args.all (·)
  isTrue b := b
  scalarSubquery _ := false
  inSubquery _ _ _ := false
  setComparison _ _ _ _ := false
  existsSubquery negated nonempty := nonempty != negated
  emit _ _ _ := []
  pass _ _ _ := []
  merge _ _ _ _ := []
  whole _ _ _ _ := []

/-- An aliased scan of `orders` that asks, among its own filters, whether `secrets` has a row: the filter
of `secrets` is not put in, and a row of `orders` tells of a row of `secrets` that may not be seen. -/
theorem rewrite_skips_filters_of_aliased_scan :
    let visible : Expr := .column ⟨none, "visible"⟩
    let rules : List RowFilter := [⟨.bare "orders", visible, none, none⟩, ⟨.bare "secrets", visible, none, none⟩]
    let plan : LogicalPlan := .subqueryAlias (.bare "o") (.tableScan (.bare "orders") none
      [.existsSubquery (.tableScan (.bare "secrets") none [] none) [] false] none)
    let db : Database Bool := fun t => if t = .bare "secrets" then [[("visible", false)]] else [[("visible", true)]]
    ∃ E r, new rules = .ok E ∧ E.rewrite (fun _ _ => none) plan .anonymous = .ok r ∧
      r.data ≠ guardPlan (E.resolvePredicate · .anonymous) true plan ∧
      evalPlan boolInterp db keepAll [] r.data = [[(⟨some (.bare "o"), "visible"⟩, true)]] ∧
      evalPlan boolInterp db (governedKeep boolInterp db (E.resolvePredicate · .anonymous)) [] plan = [] := by
  intro visible rules plan db
  refine ⟨_, _, rfl, rfl, ?_, ?_, ?_⟩
  · intro h
    cases h
  · rfl
  · rfl

end RowFilterEnforcer

end Dataglot
