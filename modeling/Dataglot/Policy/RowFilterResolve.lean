/-
The predicate of a scanned table (`resolve_predicate`), from the row filters an enforcer was
built with. Rules of the session's org and rules of every org are kept apart; in each of the
two tiers the most qualified key that has a rule for the session counts, and all of its
rules for the session do. The session's org goes first.
-/
import Dataglot.Policy.RowFilter

namespace Dataglot
open DataFusion List

def RowFilter.applies (f : RowFilter) (id : Identity) : Bool :=
  orgRuleApplies f.org id && subjectMatches f.groups id.orgGroups

/-- Predicates joined by AND, in their order. -/
def conjunction (predicates : List Expr) : Option Expr := predicates.foldl andPredicate none

@[simp] theorem conjunction_eq_none {predicates} : conjunction predicates = none ↔ predicates = [] := by
  have hs : ∀ (ps : List Expr) acc, ps.foldl andPredicate (some acc) ≠ none := by
    intro ps
    induction ps with
    | nil => simp
    | cons p ps ih => exact fun acc => ih _
  cases predicates with
  | nil => simp [conjunction]
  | cons p ps => exact iff_of_false (hs ps p) (cons_ne_nil p ps)

namespace RowFilterEnforcer

section Tiers

variable (id : Identity)

/-- The predicates of one key that a session's tier takes: of its org, or of every org. -/
def tierPredicates (ofOrg : Bool) (entries : List (ScopedRule Expr)) : List Expr :=
  (entries.filter fun r => r.org.isSome == ofOrg && r.applies id).map (·.rule)

theorem tierPredicates_eq (ofOrg) (entries) : tierPredicates id ofOrg entries =
      ((entries.filter (·.applies id)).filter fun r => r.org.isSome == ofOrg).map (·.rule) := by
  rw [filter_filter]
  rfl

theorem addRule_eq (acc) (r) : addRule id acc r =
      ⟨(tierPredicates id true [r]).foldl andPredicate acc.tenant,
        (tierPredicates id false [r]).foldl andPredicate acc.operatorWide⟩ := by
  unfold addRule tierPredicates ScopedRule.applies
  cases hs : subjectMatches r.groups id.orgGroups with
  | false => simp [hs]
  | true =>
    cases hr : r.org with
    | none => simp [hs, hr]
    | some org =>
      cases ho : orgRuleApplies (some org) id with
      | false => simp [hr, ho]
      | true => simp [hs, hr, ho]

theorem foldl_addRule (entries : List (ScopedRule Expr)) (acc) : entries.foldl (addRule id) acc =
      ⟨(tierPredicates id true entries).foldl andPredicate acc.tenant,
        (tierPredicates id false entries).foldl andPredicate acc.operatorWide⟩ := by
  induction entries generalizing acc with
  | nil => rfl
  | cons r entries ih =>
    have hc : ∀ ofOrg, tierPredicates id ofOrg (r :: entries) =
        tierPredicates id ofOrg [r] ++ tierPredicates id ofOrg entries := by
      intro ofOrg
      simp only [tierPredicates, ← map_append, ← filter_append]
      rfl
    rw [foldl_cons, ih, addRule_eq, hc, hc, foldl_append, foldl_append]

variable (E : RowFilterEnforcer)

def tierAt (ofOrg : Bool) (cand : TableReference) : Option Expr :=
  conjunction (tierPredicates id ofOrg (E.filters.rulesAt cand))

theorem foldl_addCandidate (cands : List TableReference) (acc) : cands.foldl (E.addCandidate id) acc =
      ⟨acc.tenant.or (cands.findSome? (E.tierAt id true)),
        acc.operatorWide.or (cands.findSome? (E.tierAt id false))⟩ := by
  induction cands generalizing acc with
  | nil => simp
  | cons cand cands ih =>
    rw [foldl_cons, ih, addCandidate_eq, foldl_addRule]
    simp only [findSome?_cons, Option.or_assoc, tierAt, conjunction]
    congr 2
    · cases (tierPredicates id true (E.filters.rulesAt cand)).foldl andPredicate none <;> rfl
    · cases (tierPredicates id false (E.filters.rulesAt cand)).foldl andPredicate none <;> rfl

/-- The first key of the org's tier that has anything, else the first of the operator's. -/
theorem resolvePredicate_eq (table : TableReference) : E.resolvePredicate table id =
      ((matchCandidates table).findSome? (E.tierAt id true)).or
        ((matchCandidates table).findSome? (E.tierAt id false)) := by
  rw [resolvePredicate, foldl_addCandidate]
  simp

end Tiers

/-! ## In terms of the rules that were given -/

/-- The predicates for a session, of the rules keyed at a reference; of its org, or of every org. -/
def predicatesAt (rules : List RowFilter) (id : Identity) (ofOrg : Bool) (cand : TableReference) : List Expr :=
  (rules.filter fun f => f.table = cand && (f.org.isSome == ofOrg && f.applies id)).map (·.predicate)

variable {rules : List RowFilter} {E : RowFilterEnforcer}

theorem tierAt_of_new (h : new rules = .ok E) (id) (ofOrg) (cand) :
    E.tierAt id ofOrg cand = conjunction (predicatesAt rules id ofOrg cand) := by
  rw [tierAt, filters_of_new h, tierPredicates, filter_map, map_map, filter_filter, predicatesAt]
  simp only [Bool.and_comm]
  rfl

/-- The most qualified reference at which a tier has a rule for the session. -/
def mostQualified (rules : List RowFilter) (id : Identity) (ofOrg : Bool) (table : TableReference) :
    Option TableReference :=
  (matchCandidates table).find? fun cand => !(predicatesAt rules id ofOrg cand).isEmpty

theorem conjunction_of_mostQualified {id ofOrg table cand} (h : mostQualified rules id ofOrg table = some cand) :
    ∃ e, conjunction (predicatesAt rules id ofOrg cand) = some e := by
  have hne : predicatesAt rules id ofOrg cand ≠ [] := by simpa using find?_some h
  exact Option.ne_none_iff_exists'.mp (mt conjunction_eq_none.mp hne)

theorem findSome?_tierAt (h : new rules = .ok E) (id) (ofOrg) (table) :
    (matchCandidates table).findSome? (E.tierAt id ofOrg) =
      (mostQualified rules id ofOrg table).bind fun cand => conjunction (predicatesAt rules id ofOrg cand) := by
  unfold mostQualified
  induction matchCandidates table with
  | nil => rfl
  | cons cand cands ih =>
    rw [findSome?_cons, tierAt_of_new h, find?_cons]
    cases hps : predicatesAt rules id ofOrg cand with
    | nil => simpa [conjunction] using ih
    | cons p ps =>
      obtain ⟨e, he⟩ := Option.ne_none_iff_exists'.mp (mt conjunction_eq_none.mp (cons_ne_nil p ps))
      simp [hps, he]

theorem predicatesAt_filter (rules) (id) (ofOrg) (cand) :
    predicatesAt (rules.filter (·.applies id)) id ofOrg cand = predicatesAt rules id ofOrg cand := by
  rw [predicatesAt, predicatesAt, filter_filter]
  congr 1
  refine filter_congr fun f _ => ?_
  cases f.applies id <;> simp

theorem resolvePredicate_of_new (h : new rules = .ok E) (table) (id) :
    E.resolvePredicate table id =
      ((mostQualified rules id true table).bind fun cand => conjunction (predicatesAt rules id true cand)).or
        ((mostQualified rules id false table).bind fun cand => conjunction (predicatesAt rules id false cand)) := by
  rw [resolvePredicate_eq, findSome?_tierAt h, findSome?_tierAt h]

/-- `resolve_predicate` gives a predicate when some rule is for the session; that of the session's org if
the org has one, at its most qualified key, and else the operator's; and never on account of a rule
that is for another org or other groups. -/
theorem resolvePredicate_spec (h : new rules = .ok E) (table : TableReference) (id : Identity) :
    (E.resolvePredicate table id = none ↔
        ∀ f ∈ rules, f.table ∈ matchCandidates table → f.applies id = false) ∧
      (∀ cand, mostQualified rules id true table = some cand →
        E.resolvePredicate table id = conjunction (predicatesAt rules id true cand)) ∧
      (∀ cand, mostQualified rules id true table = none → mostQualified rules id false table = some cand →
        E.resolvePredicate table id = conjunction (predicatesAt rules id false cand)) ∧
      ∀ E', new (rules.filter (·.applies id)) = .ok E' →
        E'.resolvePredicate table id = E.resolvePredicate table id := by
  have hre := resolvePredicate_of_new h table id
  refine ⟨?_, fun cand hc => ?_, fun cand hn hc => ?_, fun E' h' => ?_⟩
  · rw [resolvePredicate_eq_none_iff]
    constructor
    · intro ha f hf hm
      refine ha f.table hm ⟨f.org, f.groups, f.predicate⟩ ?_
      rw [filters_of_new h]
      exact List.mem_map.mpr ⟨f, by simp [hf], rfl⟩
    · intro ha cand hc r hr
      rw [filters_of_new h] at hr
      obtain ⟨f, hf, rfl⟩ := List.mem_map.mp hr
      obtain ⟨hf, ht⟩ := List.mem_filter.mp hf
      exact ha f hf (of_decide_eq_true ht ▸ hc)
  · obtain ⟨e, he⟩ := conjunction_of_mostQualified hc
    rw [hre, hc, Option.bind_some, he, Option.some_or]
  · rw [hre, hn, hc, Option.bind_none, Option.bind_some, Option.none_or]
  · rw [resolvePredicate_of_new h', hre]
    simp only [mostQualified, predicatesAt_filter]

/-- A rule of another org at the full name and one for another group at the bare name: the session gets the
operator's filter. -/
theorem resolvePredicate_not_shadowed :
    let rules : List RowFilter :=
      [⟨.full "pg" "public" "orders", .column ⟨none, "theirs"⟩, some "beta", none⟩,
        ⟨.bare "orders", .column ⟨none, "support"⟩, some "acme", some [⟨"support"⟩]⟩,
        ⟨.bare "orders", .column ⟨none, "visible"⟩, none, none⟩]
    let ann := (Identity.ofUser "ann").withOrg "acme"
    ∃ E, new rules = .ok E ∧
      E.resolvePredicate (.full "pg" "public" "orders") ann = some (.column ⟨none, "visible"⟩) := by
  intro rules ann
  obtain ⟨E, hE⟩ : ∃ E, new rules = .ok E := ⟨_, rfl⟩
  exact ⟨E, hE, (resolvePredicate_spec hE _ ann).2.2.1 (.bare "orders") (by decide) (by decide)⟩

end RowFilterEnforcer

end Dataglot
