/-
Column denials and aliases.

A denial is on a column of a table. The walk compares its table with the qualifier
that a reference is written with, which under an alias is the alias, and it does
not look at outer references. So it denies what a reference says, not what SQL's
scopes take it to: an aliased reference gets past the denial of its table, and a
denial of some other table may hit it once the alias is spelled like that table.
-/
import Dataglot.DataFusion.Renaming
import Dataglot.Policy.AccessDeny

namespace Dataglot
open DataFusion List

/-! ## References by SQL's scopes -/

/-- The tables that the expressions of a node see: those below it, or its own for a scan's filters. -/
def tablesInSight : LogicalPlan → Scope
  | .tableScan t _ _ _ => [(t, t)]
  | p => scopeOf p

/-- Somewhere in the plan, at any depth of subqueries, an expression refers to a column of the table, by a column
reference or by an outer reference to one of the tables around. -/
inductive Refers (columnsOf : TableReference → List String) (t : TableReference) (name : String) :
    Scope → LogicalPlan → Prop
  | column {around : Scope} {p : LogicalPlan} {e : Expr} {c : Column} (he : e ∈ p.expressions) (hc : .column c ∈ e.nodes)
      (hname : c.name = name) (hres : c.ResolvesTo columnsOf (tablesInSight p) t) : Refers columnsOf t name around p
  | outer {around : Scope} {p : LogicalPlan} {e : Expr} {c : Column} (he : e ∈ p.expressions)
      (hc : .outerReferenceColumn c ∈ e.nodes) (hname : c.name = name) (hres : c.ResolvesTo columnsOf around t) :
      Refers columnsOf t name around p
  | input {around : Scope} {p i : LogicalPlan} (hi : i ∈ p.inputs) (h : Refers columnsOf t name around i) :
      Refers columnsOf t name around p
  | subquery {around : Scope} {p q : LogicalPlan} {e : Expr} (he : e ∈ p.expressions) (hq : e.Embeds q)
      (h : Refers columnsOf t name (tablesInSight p ++ around) q) : Refers columnsOf t name around p

/-- A denial for the session is on the column of the table. -/
def AccessDenyEnforcer.DeniesField (E : AccessDenyEnforcer) (id : Identity) (t : TableReference) (name : String) : Prop :=
  ∃ d ∈ E.denials, d.appliesTo id ∧ d.column = some name ∧ d.table ∈ matchCandidates t

/-- The plan also reads a column of the name that is qualified by the table as it is scanned, or further. -/
def ReadsByTable (plan : LogicalPlan) (t : TableReference) (name : String) : Prop :=
  ∃ c, Reads c plan ∧ c.name = name ∧ ∃ rel, c.relation = some rel ∧ t ∈ matchCandidates rel

/-- No column reference of the plan is qualified by an alias. -/
def ReadsNoAlias (plan : LogicalPlan) : Prop :=
  ∀ q : LogicalPlan, q.Within plan → ∀ e ∈ q.expressions, ∀ c : Column, .column c ∈ e.nodes → ∀ rel, c.relation = some rel →
    ∀ s, (sightOf q).find? (fun s => rel.resolvedEq s.name) = some s → s.isAlias = false

theorem matchCandidates_trans {a b c} (hab : a ∈ matchCandidates b) (hbc : b ∈ matchCandidates c) :
    a ∈ matchCandidates c := by
  cases c <;> simp only [matchCandidates, mem_cons, not_mem_nil, or_false] at hbc
  · subst hbc
    exact hab
  · rcases hbc with rfl | rfl
    · exact hab
    · simp [matchCandidates] at hab ⊢
      exact .inr hab
  · rcases hbc with rfl | rfl | rfl
    · exact hab
    · simp [matchCandidates] at hab ⊢
      exact .inr hab
    · simp [matchCandidates] at hab ⊢
      exact .inr (.inr hab)

theorem self_mem_matchCandidates (t) : t ∈ matchCandidates t := by
  cases t <;> simp [matchCandidates]

theorem table_of_mem_matchCandidates {a t} (h : a ∈ matchCandidates t) : a.table = t.table := by
  cases t <;> simp only [matchCandidates, mem_cons, not_mem_nil, or_false] at h
  · rw [h]
  · rcases h with rfl | rfl <;> rfl
  · rcases h with rfl | rfl | rfl <;> rfl

/-! ## What a renamed plan reads -/

section Renamed

variable {ρ : TableReference → TableReference} {around : Sight} {p : LogicalPlan}

theorem reads_rename {c'} : Reads c' (rename ρ around p) ↔
    ∃ q : LogicalPlan, q.Within p ∧ ∃ e ∈ q.expressions, ∃ c, .column c ∈ e.nodes ∧ c.requalified ρ
    (sightOf q) = c' := by
  constructor
  · rintro ⟨q', hq', e', he', hc'⟩
    obtain ⟨q, around', hq, rfl⟩ := exists_of_within_rename hq' rfl
    rw [expressions_rename] at he'
    obtain ⟨e, he, rfl⟩ := mem_map.mp he'
    exact ⟨q, hq, e, he, column_mem_nodes_renameExpr.mp hc'⟩
  · rintro ⟨q, hq, e, he, hc⟩
    obtain ⟨around', hq'⟩ := exists_rename_within hq around
    refine ⟨_, hq', renameExpr ρ (sightOf q) around' e, ?_, column_mem_nodes_renameExpr.mpr hc⟩
    rw [expressions_rename]
    exact mem_map_of_mem he

theorem scanned_rename {t} : Scanned t (rename ρ around p) ↔ Scanned t p := by
  constructor
  · rintro ⟨projection, filters, fetch, hq'⟩
    obtain ⟨q, around', hq, heq⟩ := exists_of_within_rename hq' rfl
    cases q <;> simp only [rename, reduceCtorEq, LogicalPlan.tableScan.injEq] at heq
    obtain ⟨rfl, -⟩ := heq
    exact ⟨_, _, _, hq⟩
  · rintro ⟨projection, filters, fetch, hq⟩
    obtain ⟨around', hq'⟩ := exists_rename_within hq around
    rw [rename] at hq'
    exact ⟨_, _, _, hq'⟩

theorem reads_rename_of_readsNoAlias (h : ReadsNoAlias p) {c} : Reads c (rename ρ around p) ↔ Reads c p := by
  have hsa : ∀ q, q.Within p → ∀ e ∈ q.expressions, ∀ c : Column, .column c ∈ e.nodes →
      c.requalified ρ (sightOf q) = c := by
    intro q hq e he c hc
    obtain ⟨relation, name⟩ := c
    cases relation with
    | none => rfl
    | some rel =>
      have hk : requalify ρ (sightOf q) rel = rel := by
        unfold requalify
        split
        next s hs => rw [h q hq e he _ hc rel rfl s hs, if_neg Bool.false_ne_true]
        next => rfl
      simp only [Column.requalified, Option.map_some, hk]
  rw [reads_rename]
  constructor
  · rintro ⟨q, hq, e, he, c₀, hc₀, rfl⟩
    rw [hsa q hq e he c₀ hc₀]
    exact ⟨q, hq, e, he, hc₀⟩
  · rintro ⟨q, hq, e, he, hc⟩
    exact ⟨q, hq, e, he, c, hc, hsa q hq e he c hc⟩

end Renamed

namespace AccessDenyEnforcer

variable {E : AccessDenyEnforcer} {id : Identity} {plan : LogicalPlan}

theorem rewrite_succeeds_iff : (∃ r, E.rewrite plan id = .ok r) ↔
    (∀ t, Scanned t plan → ¬ E.DeniesTable id t) ∧ ∀ c, Reads c plan → ¬ E.DeniesColumn id c := by
  simp only [rewrite_ok_iff, exists_eq_left]

theorem rewrite_fails_iff : (∃ err, E.rewrite plan id = .error err) ↔
    (∃ t, Scanned t plan ∧ E.DeniesTable id t) ∨ ∃ c, Reads c plan ∧ E.DeniesColumn id c := by
  have hf : (∃ err, E.rewrite plan id = .error err) ↔ ¬ ∃ r, E.rewrite plan id = .ok r := by
    cases E.rewrite plan id <;> simp
  rw [hf, rewrite_succeeds_iff, not_and_or]
  simp only [not_forall, not_not, exists_prop]

def denyColumn (t : TableReference) (name : String) : AccessDenyEnforcer := new [⟨t, some name, []⟩]

theorem rewrite_denyColumn_fails_iff {t name} :
    (∃ err, (denyColumn t name).rewrite plan id = .error err) ↔ ReadsByTable plan t name := by
  rw [rewrite_fails_iff]
  constructor
  · rintro (⟨_, -, d, hd, -, hco, -⟩ | ⟨c, hc, d, hd, -, hco, rel, hr, ht⟩)
    · obtain rfl := mem_singleton.mp hd
      cases hco
    · obtain rfl := mem_singleton.mp hd
      exact ⟨c, hc, (Option.some.inj hco).symm, rel, hr, ht⟩
  · rintro ⟨c, hc, rfl, rel, hr, ht⟩
    exact .inr ⟨c, hc, _, mem_singleton_self _, rfl, rfl, rel, hr, ht⟩

/-- Denials of the columns that a plan refers to are enforced exactly where the plan names the tables. -/
theorem denials_enforced_iff (columnsOf) :
    (∀ (E : AccessDenyEnforcer) id t name, Refers columnsOf t name [] plan →
      E.DeniesField id t name → ∃ err, E.rewrite plan id = .error err) ↔
    ∀ t name, Refers columnsOf t name [] plan → ReadsByTable plan t name := by
  constructor
  · intro h t name hr
    have hde : (denyColumn t name).DeniesField .anonymous t name :=
      ⟨_, mem_singleton_self _, rfl, rfl, self_mem_matchCandidates t⟩
    exact rewrite_denyColumn_fails_iff.mp (h _ .anonymous t name hr hde)
  · rintro h E id t name hr ⟨d, hd, ha, hco, ht⟩
    obtain ⟨c, hc, rfl, rel, hre, hm⟩ := h t name hr
    exact rewrite_fails_iff.mpr (.inr ⟨c, hc, d, hd, ha, hco, rel, hre, matchCandidates_trans ht hm⟩)

/-- The verdict does not depend on how aliases are spelled exactly where none is read through. -/
theorem renaming_keeps_verdict_iff : (∀ (E : AccessDenyEnforcer) id ρ, ConsistentRenaming ρ plan →
      ((∃ r, E.rewrite (rename ρ [] plan) id = .ok r) ↔ ∃ r, E.rewrite plan id = .ok r)) ↔ ReadsNoAlias plan := by
  constructor
  · intro h q hq e he c hc rel hre s hs
    by_contra ha
    rw [Bool.not_eq_false] at ha
    obtain ⟨name, hf⟩ := exists_fresh plan
    -- the alias under a fresh name, and a denial of the column of that name
    have hr : ReadsByTable (rename (renameOne s.name name) [] plan) (.bare name) c.name := by
      refine ⟨c.requalified (renameOne s.name name) (sightOf q), reads_rename.mpr ⟨q, hq, e, he, c, hc, rfl⟩, rfl,
        .bare name, ?_, mem_singleton_self _⟩
      simp [Column.requalified, hre, requalify, hs, ha, renameOne]
    have hu : ¬ ReadsByTable plan (.bare name) c.name := by
      rintro ⟨c', ⟨q', hq', e', he', hc'⟩, -, rel', hre', hm⟩
      refine hf q' hq' (.inr ⟨e', he', c', .inl hc', rel', hre', ?_⟩)
      exact (table_of_mem_matchCandidates hm).symm
    have hv := h (denyColumn (.bare name) c.name) .anonymous (renameOne s.name name)
      (consistentRenaming_renameOne hf)
    obtain ⟨err, her⟩ : ∃ err, (denyColumn (.bare name) c.name).rewrite (rename (renameOne s.name name) [] plan)
        .anonymous = .error err := rewrite_denyColumn_fails_iff.mpr hr
    cases hplan : (denyColumn (.bare name) c.name).rewrite plan .anonymous with
    | error err => exact hu (rewrite_denyColumn_fails_iff.mp ⟨err, hplan⟩)
    | ok r =>
      obtain ⟨r', hr'⟩ := hv.mpr ⟨r, hplan⟩
      rw [her] at hr'
      cases hr'
  · intro h E id ρ _
    simp only [rewrite_succeeds_iff, scanned_rename, reads_rename_of_readsNoAlias h]

/-- **Where column denials mean what they say.** For a plan, every denial of a column that SQL's scopes find a
reference to is enforced, and no consistent renaming of aliases changes a verdict, exactly when the plan names
the table of each such column in some column reference and qualifies none by an alias. -/
theorem denials_follow_scoping_iff (columnsOf : TableReference → List String) (plan : LogicalPlan) :
    ((∀ (E : AccessDenyEnforcer) (id : Identity) (t : TableReference) (name : String), Refers columnsOf t name [] plan →
        E.DeniesField id t name → ∃ err, E.rewrite plan id = .error err) ∧
      ∀ (E : AccessDenyEnforcer) (id : Identity) (ρ : TableReference → TableReference), ConsistentRenaming ρ plan →
        ((∃ r, E.rewrite (rename ρ [] plan) id = .ok r) ↔ ∃ r, E.rewrite plan id = .ok r)) ↔
    (∀ t name, Refers columnsOf t name [] plan → ReadsByTable plan t name) ∧ ReadsNoAlias plan :=
  and_congr (denials_enforced_iff columnsOf) renaming_keeps_verdict_iff

/-- `SELECT u.email FROM users u`, with `users.email` denied to everyone: the query is let through, and with the
alias spelled `users` it is not. -/
theorem rewrite_lets_aliased_column_through :
    let select (name : String) : LogicalPlan := .projection [.column ⟨some (.bare name), "email"⟩]
      (.subqueryAlias (.bare name) (.tableScan (.bare "users") none [] none)) [⟨some (.bare name), "email"⟩]
    let E := new [⟨.bare "users", some "email", []⟩]
    Refers (fun _ => ["email"]) (.bare "users") "email" [] (select "u") ∧
      E.DeniesField .anonymous (.bare "users") "email" ∧ (∃ r, E.rewrite (select "u") .anonymous = .ok r) ∧
      ConsistentRenaming (fun _ => .bare "users") (select "u") ∧
      rename (fun _ => .bare "users") [] (select "u") = select "users" ∧
      ∃ err, E.rewrite (select "users") .anonymous = .error err := by
  intro select E
  refine ⟨?_, ⟨_, List.mem_singleton_self _, rfl, rfl, List.mem_singleton_self _⟩, ⟨_, rfl⟩, ?_, rfl, ⟨_, rfl⟩⟩
  · refine .column (List.mem_singleton_self _) (List.mem_singleton_self _) rfl ⟨.bare "u", ?_, ?_, ?_⟩
    · exact List.mem_singleton_self _
    · exact List.mem_singleton_self _
    · rintro rel hr
      obtain rfl := Option.some.inj hr
      rfl
  · refine .intro ⟨?_, ?_⟩ (fun i hi => ?_) fun e he q hq => ?_
    · decide
    · intro e he c rel hr
      obtain rfl := List.mem_singleton.mp he
      refine ⟨fun hc hno => ?_, fun _ _ => nofun⟩
      obtain rfl := Expr.column.inj (List.mem_singleton.mp hc)
      obtain rfl := Option.some.inj hr
      exact absurd (hno _ (List.mem_singleton_self _)) (by decide)
    · obtain rfl := List.mem_singleton.mp hi
      refine .intro ⟨by decide, nofun⟩ (fun i hi => ?_) fun e he => nomatch he
      obtain rfl := List.mem_singleton.mp hi
      exact .intro ⟨by decide, nofun⟩ nofun fun e he => nomatch he
    · obtain rfl := List.mem_singleton.mp he
      simp at hq

end AccessDenyEnforcer

end Dataglot
