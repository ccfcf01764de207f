/-
What a policy statement can do: nothing, or a change of the live rules and then a write
of the store under the statement's org. From that, which failed statements leave
everything as it was: the live rules are not put back when the write fails.
-/
import Dataglot.Server.PolicyAdmin

namespace Dataglot
open DataFusion

namespace PolicyStore

variable (st : PolicyStore)

theorem getPolicy_eq_lookup (org name) : st.getPolicy org name =
    ((st.orgs.lookup org).getD ∅).lookup name := by
  unfold getPolicy
  cases st.orgs.lookup org <;> rfl

theorem getPolicy_putPolicy (org name kind rule org' name') :
    (st.putPolicy org name kind rule).getPolicy org' name' =
      if org' = org ∧ name' = name then some (kind, rule) else st.getPolicy org' name' := by
  rw [getPolicy_eq_lookup, getPolicy_eq_lookup, putPolicy]
  by_cases ho : org' = org
  · subst ho
    by_cases hn : name' = name
    · subst hn
      simp
    · simp [AList.lookup_insert_ne hn, hn]
  · simp [AList.lookup_insert_ne ho, ho]

theorem getPolicy_deletePolicy (org name org' name') : (st.deletePolicy org name).getPolicy org' name' =
      if org' = org ∧ name' = name then none else st.getPolicy org' name' := by
  rw [getPolicy_eq_lookup, getPolicy_eq_lookup, deletePolicy]
  cases hor : st.orgs.lookup org with
  | none =>
    split_ifs with h
    · rw [h.1, hor]
      rfl
    · rfl
  | some policies =>
    by_cases ho : org' = org
    · subst ho
      by_cases hn : name' = name
      · subst hn
        simp
      · simp [AList.lookup_erase_ne hn, hn, hor]
    · simp [AList.lookup_insert_ne ho, ho]

end PolicyStore

namespace PolicyAdmin

variable {S : SqlParser} {I : IterationOrder} {debug : Expr → String} {faults : StoreFaults} {st : PolicyStore}
  {org : String} {change : RuleChange} {write : PolicyWrite}

/-- What a statement's change and write have to do with the store and with each other. -/
inductive Commits (S : SqlParser) (I : IterationOrder) (st : PolicyStore) (org : String) : RuleChange → PolicyWrite → Prop
  | createMask {name table column : String} {mask : PolicyMask} {change : RuleChange} {rule : PolicyValue} :
      st.getPolicy org name = none → declareMask S I org table column mask = .ok (change, rule) →
      Commits S I st org change (.put name kindMask rule)
  | createRowFilter {name table predicate : String} {change : RuleChange} {rule : PolicyValue} :
      st.getPolicy org name = none → declareRowFilter S org table predicate = .ok (change, rule) →
      Commits S I st org change (.put name kindRowFilter rule)
  | dropMask {name : String} {rule : PolicyValue} {change : RuleChange} :
      st.getPolicy org name = some (kindMask, rule) → removeMask S org rule = .ok change →
      Commits S I st org change (.delete name)
  | dropRowFilter {name : String} {rule : PolicyValue} {change : RuleChange} :
      st.getPolicy org name = some (kindRowFilter, rule) → removeRowFilter S org rule = .ok change →
      Commits S I st org change (.delete name)

theorem readPolicy_ok {name found}
    (h : readPolicy faults st org name = .ok found) : found = st.getPolicy org name := by
  unfold readPolicy at h
  cases hr : faults.read with
  | some e => rw [hr] at h; cases h
  | none => rw [hr] at h; cases h; rfl

theorem createPolicy_commit {name kind ifNotExists declared}
    (h : createPolicy faults st org name kind ifNotExists declared = .ok (.commit change write)) :
    ∃ rule, st.getPolicy org name = none ∧ declared = .ok (change, rule) ∧ write = .put name kind rule := by
  unfold createPolicy at h
  obtain ⟨found, hr, h⟩ := Except.bind_ok_iff.mp h
  have hf := readPolicy_ok hr
  cases found with
  | some policy =>
    dsimp only at h
    split_ifs at h
    cases h
  | none =>
    obtain ⟨⟨change', rule⟩, hd, h⟩ := Except.bind_ok_iff.mp h
    cases h
    exact ⟨rule, hf.symm, hd, rfl⟩

theorem dropPolicy_commit {name kind ifExists remove}
    (h : dropPolicy faults st org name kind ifExists remove = .ok (.commit change write)) :
    ∃ rule, st.getPolicy org name = some (kind, rule) ∧ remove rule = .ok change ∧ write = .delete name := by
  unfold dropPolicy at h
  obtain ⟨found, hre, h⟩ := Except.bind_ok_iff.mp h
  have hf := readPolicy_ok hre
  cases hk : found.filter fun policy => policy.1 == kind with
  | none =>
    rw [hk] at h
    dsimp only at h
    split_ifs at h
    cases h
  | some policy =>
    rw [hk] at h
    obtain ⟨change', hr, h⟩ := Except.bind_ok_iff.mp h
    cases h
    obtain ⟨hs, heq⟩ := Option.filter_eq_some_iff.mp hk
    obtain ⟨kind', rule⟩ := policy
    obtain rfl : kind' = kind := beq_iff_eq.mp heq
    exact ⟨rule, hf.symm.trans hs, hr, rfl⟩

/-- One lemma over all statements: what there is to carry out. -/
theorem commits_of_plan {ddl} (h : plan S I faults st org ddl = .ok (.commit change write)) :
    Commits S I st org change write := by
  cases ddl with
  | createMask name table column mask ifNotExists =>
    obtain ⟨rule, hf, hd, rfl⟩ := createPolicy_commit h
    exact .createMask hf hd
  | createRowFilter name table predicate ifNotExists =>
    obtain ⟨rule, hf, hd, rfl⟩ := createPolicy_commit h
    exact .createRowFilter hf hd
  | dropMask name ifExists =>
    obtain ⟨rule, hs, hr, rfl⟩ := dropPolicy_commit h
    exact .dropMask hs hr
  | dropRowFilter name ifExists =>
    obtain ⟨rule, hs, hr, rfl⟩ := dropPolicy_commit h
    exact .dropRowFilter hs hr

theorem Commits.run_ne (h : Commits S I st org change write) : write.run org st ≠ st := by
  intro heq
  have hp : ∀ {name kind rule}, st.getPolicy org name = none → st.putPolicy org name kind rule = st → False := by
    intro name kind rule hf hsa
    have hg := st.getPolicy_putPolicy org name kind rule org name
    rw [hsa, hf] at hg
    simp at hg
  have hd : ∀ {name policy}, st.getPolicy org name = some policy → st.deletePolicy org name = st → False := by
    intro name policy hs hsa
    have hg := st.getPolicy_deletePolicy org name org name
    rw [hsa, hs] at hg
    simp at hg
  cases h with
  | createMask hf _ => exact hp hf heq
  | createRowFilter hf _ => exact hp hf heq
  | dropMask hs _ => exact hd hs heq
  | dropRowFilter hs _ => exact hd hs heq

/-! ## Failed statements -/

/-- A failed commit has changed nothing when the rule was there already and the write has not got into the store. -/
theorem commit_error_unchanged_iff (debug faults) {admin}
    (h : Commits S I admin.store org change write) :
    (∀ e, (commit debug faults admin org change write).2 = .error e → (commit debug faults admin org change write).1 = admin) ↔
      ∀ fault, faults.write = some fault → (admin.ruleStore.apply debug change).2 = .ok () →
        admin.ruleStore.storage.bodyAt debug change.key = change.body debug ∧ ∃ e, fault = .unwritten e := by
  have hw : ∀ ruleStore, (⟨write.run org admin.store, ruleStore⟩ : StorePolicyAdmin) ≠ admin := by
    intro ruleStore heq
    exact h.run_ne (congrArg StorePolicyAdmin.store heq)
  unfold commit
  rcases InMemoryRuleStore.apply_cases debug admin.ruleStore change with
    ⟨hb, ha⟩ | ⟨hb, enforcer, -, ha⟩ | ⟨e, -, ha⟩
  · -- The rule is there: only the write can make a difference.
    rw [ha]
    cases faults.write with
    | none => simp
    | some fault =>
      cases fault with
      | unwritten message => simp [hb]
      | written message => simp [hw]
  · have hr : ∀ st, (⟨st, ⟨(admin.ruleStore.storage.applyChange debug change).1, enforcer⟩⟩ : StorePolicyAdmin) ≠ admin := by
      intro st heq
      have hs := congrArg (fun a : StorePolicyAdmin => a.ruleStore.storage) heq
      exact hb ((RuleStorage.applyChange_unchanged_iff debug _ change).1.mp hs)
    rw [ha]
    cases faults.write with
    | none => simp
    | some fault =>
      cases fault with
      | unwritten message => simp [hb, hr]
      | written message => simp [hb, hr]
  · -- A change that is refused is taken back.
    rw [ha]
    simp

/-- **Which failed statements change nothing.** A statement that fails leaves the stored policies and the live
rules as they were if and only if, when its write fails, the live rule was already as the statement makes it
and the write has not got into the store. -/
theorem failed_statement_changes_nothing_iff (admin : StorePolicyAdmin) (ddl : PolicyDdl) :
    (∀ e, (apply S I debug faults admin org ddl).2 = .error e → (apply S I debug faults admin org ddl).1 = admin) ↔
      ∀ change write fault, plan S I faults admin.store org ddl = .ok (.commit change write) →
        faults.write = some fault → (admin.ruleStore.apply debug change).2 = .ok () →
        admin.ruleStore.storage.bodyAt debug change.key = change.body debug ∧ ∃ e, fault = .unwritten e := by
  unfold apply
  cases hplan : plan S I faults admin.store org ddl with
  | error e => simp
  | ok planned =>
    cases planned with
    | noOp => simp
    | commit change write =>
      rw [commit_error_unchanged_iff debug faults (commits_of_plan hplan)]
      constructor
      · intro hc change' write' fault heq
        cases heq
        exact hc fault
      · intro ha fault
        exact ha change write fault rfl

/-- Literals are printed as they are. -/
def debugLiteral : Expr → String
  | .literal (.utf8 s) => s
  | _ => ""

def freshAdmin : StorePolicyAdmin := ⟨.empty, .empty⟩

/-- The store cannot write, the statement fails, and the mask is enforced. -/
theorem failed_create_leaves_mask_live :
    let run := apply .bareNames .asWritten debugLiteral ⟨none, some (.unwritten "disk full")⟩ freshAdmin "acme"
      (.createMask "m" "users" "email" (.literal "***") false)
    run.2 = .error (.backend "policy store: disk full") ∧
      run.1.store = freshAdmin.store ∧
      freshAdmin.ruleStore.storage.printed debugLiteral = [] ∧
      run.1.ruleStore.storage.printed debugLiteral = [⟨.mask (.bare "users") "email" (some "acme"), none, "***"⟩] :=
  ⟨rfl, rfl, rfl, rfl⟩

end PolicyAdmin

end Dataglot
