/-
A rule is registered for a table under some qualification of its name, and a
query writes the table under some qualification too. Row filters, denials and
whitelists are looked up under the written name and its shorter forms only; masks
under the completed name and all its shorter forms. So a rule of the first three
kinds is met by the writings that are at least as long as its own key.
-/
import Dataglot.Policy.AccessDeny
import Dataglot.Policy.Mask
import Dataglot.Policy.RowFilter
import Dataglot.Policy.Whitelist

namespace Dataglot
open DataFusion TableReference RowFilterEnforcer ColumnWhitelistEnforcer List LogicalPlan

/-! ## Names of one table -/

section Names

variable {c s t dc ds : String} {r key : TableReference}

theorem mem_matchCandidates_iff (hr : r.resolve dc ds = (c, s, t)) (hk : key ∈ matchCandidates (.full c s t)) :
    key ∈ matchCandidates r ↔ key.level ≤ r.level := by
  simp only [matchCandidates, mem_cons, not_mem_nil, or_false] at hk
  cases r with
  | bare t' =>
    obtain ⟨-, -, rfl⟩ := by simpa [resolve] using hr
    rcases hk with rfl | rfl | rfl <;> simp [matchCandidates, level]
  | partialRef s' t' =>
    obtain ⟨-, rfl, rfl⟩ := by simpa [resolve] using hr
    rcases hk with rfl | rfl | rfl <;> simp [matchCandidates, level]
  | full c' s' t' =>
    obtain ⟨rfl, rfl, rfl⟩ := by simpa [resolve] using hr
    rcases hk with rfl | rfl | rfl <;> simp [matchCandidates, level]

theorem mem_candidateRefs {E : ColumnMaskingEnforcer} (hr : r.resolve dc ds = (c, s, t))
    (hk : key ∈ matchCandidates (.full c s t)) : key ∈ (E.withSessionDefaults dc ds).candidateRefs r := by
  cases r with
  | bare t' =>
    obtain ⟨rfl, rfl, rfl⟩ := by simpa [resolve] using hr
    exact hk
  | partialRef s' t' =>
    obtain ⟨rfl, rfl, rfl⟩ := by simpa [resolve] using hr
    exact hk
  | full c' s' t' =>
    obtain ⟨rfl, rfl, rfl⟩ := by simpa [resolve] using hr
    exact hk

end Names

/-! ## Rules -/

/-- A rule of any of the kinds that are registered for a table. -/
inductive PolicyRule
  | rowFilter (filter : RowFilter)
  | accessDenial (denial : AccessDenial)
  | columnWhitelist (whitelist : ColumnWhitelist)
  | columnMask (mask : ColumnMask)

namespace PolicyRule

def table : PolicyRule → TableReference
  | rowFilter f => f.table
  | accessDenial d => d.table
  | columnWhitelist w => w.table
  | columnMask m => m.table

def isMask : PolicyRule → Bool
  | columnMask _ => true
  | _ => false

/-- The rule's org and groups are those of the session. -/
def inScope (id : Identity) : PolicyRule → Bool
  | rowFilter f => orgRuleApplies f.org id && subjectMatches f.groups id.orgGroups
  | accessDenial d => d.appliesTo id
  | columnWhitelist w => orgRuleApplies w.org id && subjectMatches w.groups id.orgGroups
  | columnMask m => orgRuleApplies m.org id && subjectMatches m.groups id.orgGroups

/-- A query of nothing but what a denial forbids, with the table written as `r`. -/
def probe (d : AccessDenial) (r : TableReference) : LogicalPlan :=
  match d.column with
  | none => .tableScan r none [] none
  | some column => .projection [.column ⟨some r, column⟩] (.tableScan r none [] none) [⟨some r, column⟩]

/-- An enforcer with the rule alone, in a session with the given defaults, applies it to a scan or a
column written with `r`: the scan has a predicate, the query is refused, the relation is restricted,
the column has a mask. -/
def FiresOn (catalog schema : String) (id : Identity) (r : TableReference) : PolicyRule → Prop
  | rowFilter f => ∃ E, RowFilterEnforcer.new [f] = .ok E ∧ E.resolvePredicate r id ≠ none
  | accessDenial d => ∀ out, (AccessDenyEnforcer.new [d]).rewrite (probe d r) id ≠ .ok out
  | columnWhitelist w => (ColumnWhitelistEnforcer.new [w]).visibleColumns r ∅ id ≠ none
  | columnMask m => ∃ E, ColumnMaskingEnforcer.new [m] = .ok E ∧
      (E.withSessionDefaults catalog schema).lookupMask r m.column ∅ id ≠ none

variable {catalog schema : String} {id : Identity} {r : TableReference}

theorem found_alone_iff {α : Type} {key} (rule) {cands : List TableReference}
    {rulesAt : TableReference → List (ScopedRule α)} (hat : ∀ k, rulesAt k = if key = k then [rule] else []) :
    (¬ ∀ cand ∈ cands, ∀ r ∈ rulesAt cand, r.applies id = false) ↔ rule.applies id ∧ key ∈ cands := by
  constructor
  · intro h
    simp only [not_forall, Bool.not_eq_false] at h
    obtain ⟨cand, hc, r, hr, ha⟩ := h
    rw [hat] at hr
    split_ifs at hr with hk
    · obtain rfl := mem_singleton.mp hr
      exact ⟨ha, hk ▸ hc⟩
    · cases hr
  · rintro ⟨ha, hk⟩ h
    rw [h key hk rule (by simp [hat])] at ha
    cases ha

theorem firesOn_rowFilter {f : RowFilter} :
    (rowFilter f).FiresOn catalog schema id r ↔ (rowFilter f).inScope id ∧ f.table ∈ matchCandidates r := by
  have hr : ∀ {E}, new [f] = .ok E → (E.resolvePredicate r id ≠ none ↔
      (rowFilter f).inScope id ∧ f.table ∈ matchCandidates r) := fun {E} hE => by
    rw [Ne, resolvePredicate_eq_none_iff]
    refine found_alone_iff ⟨f.org, f.groups, f.predicate⟩ fun k => ?_
    rw [filters_of_new hE, filter_singleton]
    by_cases hk : f.table = k <;> simp [hk]
  constructor
  · rintro ⟨E, hE, h⟩
    exact (hr hE).mp h
  · exact fun h => ⟨_, rfl, (hr rfl).mpr h⟩

theorem firesOn_columnWhitelist {w : ColumnWhitelist} : (columnWhitelist w).FiresOn catalog schema id r ↔
      (columnWhitelist w).inScope id ∧ w.table ∈ matchCandidates r := by
  rw [FiresOn, Ne, visibleColumns_eq_none_iff]
  have hc : candidates r ∅ = matchCandidates r := by
    simp [candidates]
  rw [hc]
  refine found_alone_iff ⟨w.org, w.groups, w.columns.toFinset⟩ fun k => ?_
  rw [rules_of_new, filter_singleton]
  by_cases hk : w.table = k <;> simp [hk]

theorem firesOn_accessDenial {d} :
    (accessDenial d).FiresOn catalog schema id r ↔ (accessDenial d).inScope id ∧ d.table ∈ matchCandidates r := by
  have hf : (accessDenial d).FiresOn catalog schema id r ↔
      ¬ ((∀ t, Scanned t (probe d r) → ¬ (AccessDenyEnforcer.new [d]).DeniesTable id t) ∧
        ∀ c, Reads c (probe d r) → ¬ (AccessDenyEnforcer.new [d]).DeniesColumn id c) := by
    simp only [FiresOn, Ne, AccessDenyEnforcer.rewrite_ok_iff]
    constructor
    · exact fun h hok => h _ ⟨rfl, hok⟩
    · exact fun h out hok => h hok.2
  have hs : ∀ t, Scanned t (.tableScan r none [] none) ↔ t = r := fun t => by
    rw [scanned_iff]
    simp [expressions, inputs, eq_comm]
  have hr : ∀ c, ¬ Reads c (.tableScan r none [] none) := fun c => by
    rw [reads_iff]
    simp [expressions, inputs]
  rw [hf]
  cases hc : d.column with
  | none =>
    simp [probe, hc, hs, hr, AccessDenyEnforcer.DeniesTable, AccessDenyEnforcer.new, inScope]
  | some column =>
    have hp : ∀ c, Reads c (probe d r) ↔ c = ⟨some r, column⟩ := fun c => by
      rw [probe, hc, reads_iff]
      simp [expressions, inputs, hr, Expr.nodes]
    simp [hp, AccessDenyEnforcer.DeniesTable, AccessDenyEnforcer.DeniesColumn, AccessDenyEnforcer.new, hc, inScope]

theorem firesOn_columnMask {m c s t} (hr : r.resolve catalog schema = (c, s, t))
    (hke : m.table ∈ matchCandidates (.full c s t)) :
    (columnMask m).FiresOn catalog schema id r ↔ (columnMask m).inScope id := by
  have hru : ∀ {E}, ColumnMaskingEnforcer.new [m] = .ok E →
      ((E.withSessionDefaults catalog schema).lookupMask r m.column ∅ id ≠ none ↔ (columnMask m).inScope id) := by
    intro E hE
    rw [Ne, ColumnMaskingEnforcer.lookupMask_eq_none_iff,
      @found_alone_iff id Expr m.table ⟨m.org, m.groups, m.mask⟩ _ _ fun k => ?_]
    · refine and_iff_left (mem_append_left _ (mem_candidateRefs hr hke))
    · rw [show (E.withSessionDefaults catalog schema).masks = E.masks from rfl,
        ColumnMaskingEnforcer.masks_of_new hE, filter_singleton]
      by_cases hk : m.table = k <;> simp [hk]
  constructor
  · rintro ⟨E, hE, h⟩
    exact (hru hE).mp h
  · exact fun h => ⟨_, rfl, (hru rfl).mpr h⟩

end PolicyRule

end Dataglot
