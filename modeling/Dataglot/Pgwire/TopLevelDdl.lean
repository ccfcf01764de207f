/-
Control-plane statements and PostgreSQL's statements: what the handler applies is a
statement of the message by PostgreSQL's lexical rules only where the front end's split,
which knows no comments and no dollar quotes, cuts where PostgreSQL does.
-/
import Dataglot.Pgwire.AdminGate

namespace Dataglot
open Text Statement

variable {R : Type} (U : UnicodeTables)

/-- Surroundings in which nothing fails. -/
def Surroundings.accepting (R : Type) : Surroundings R where
  configured _ := true
  currentSessionOrg := none
  catalogApply _ _ := .ok .noOp
  viewApply _ _ := .ok .noOp
  seamApply _ _ := .ok ()
  createLogicalPlan _ _ := .ok ()
  registerTable _ _ := .ok ()
  deregisterTable _ _ := .ok ()
  buildCopyOutResponse _ _ := .ok ()
  applyPreparseRewrites _ := none
  rejectDeepCompoundIdentifier _ := none
  innerDoQuery _ _ := .ok []

/-! ## What is applied is a control-plane statement -/

theorem isDdl_of_apply_in_bundle {E : Surroundings R} {principal statements}
    (hpa : statements.Pairwise Precedes) {entry}
    (he : entry ∈ (runStatements U E principal [] statements).1) (ha : entry.call.isApply = true) :
    entry.statement ∈ statements ∧ isControlPlaneDdl U entry.statement.text = true := by
  have hr := sequential_runStatements U E principal [] hpa
  refine ⟨hr.ofStatements entry he, ?_⟩
  rw [isControlPlaneDdl_eq]
  -- The inner handler, which other statements go to, is no seam.
  have ht : entry.call.target = none ∨ entry.call.target = (routedCall U E entry.statement.text).target :=
    hr.target entry he
  cases hc : entry.call with
  | apply org ddl =>
    cases hp : parseControlPlaneDdl U entry.statement.text with
    | some _ => rfl
    | none =>
      rw [hc, routedCall, hp] at ht
      rcases ht with h | h <;> cases h
  | _ => rw [hc] at ha; cases ha

theorem isDdl_of_apply {E : Surroundings R} {principal query entry}
    (he : entry ∈ (doQuery U E principal query).1) (ha : entry.call.isApply = true) :
    entry.statement ∈ handledStatements U query ∧ isControlPlaneDdl U entry.statement.text = true := by
  unfold doQuery at he
  unfold handledStatements
  split_ifs at he ⊢
  · exact isDdl_of_apply_in_bundle U (pairwise_splitSqlStatements query) he ha
  · obtain ⟨hs, hc⟩ := Sequential.mem_map_mk he
    rw [hs]
    refine ⟨List.mem_singleton_self _, ?_⟩
    show isControlPlaneDdl U query = true
    rw [isControlPlaneDdl_eq]
    cases hp : parseControlPlaneDdl U query with
    | some _ => rfl
    | none =>
      rw [runMessage_of_not_ddl U E principal hp _ hc] at ha
      cases ha

/-! ## Every control-plane statement may be applied -/

theorem applyDdl_accepting (before ddl) :
    ∃ tag, (applyDdl (.accepting R) before ddl).2 = .ok tag := by
  cases ddl with
  | view ddl => cases ddl <;> exact ⟨_, rfl⟩
  | _ => exact ⟨_, rfl⟩

theorem runStatement_accepting (before stmt) :
    ∃ responses, (runStatement U (.accepting R) none before stmt).2 = .ok responses := by
  unfold runStatement tryApplyControlPlaneDdl
  cases parseControlPlaneDdl U stmt with
  | none => exact ⟨_, rfl⟩
  | some ddl =>
    obtain ⟨tag, ht⟩ := applyDdl_accepting (R := R) before ddl
    refine ⟨[.execution tag], ?_⟩
    show (applyDdl (.accepting R) before ddl).2.map _ = _
    rw [ht]
    rfl

theorem runStatements_accepting : ∀ before statements,
    ∃ responses, (runStatements U (.accepting R) none before statements).2 = .ok responses
  | _, [] => ⟨[], rfl⟩
  | before, s :: rest => by
    obtain ⟨responses, hs⟩ := runStatement_accepting (R := R) U before s.text
    unfold runStatements
    cases hr : runStatement U (.accepting R) none before s.text with
    | mk calls result =>
      rw [hr] at hs
      obtain rfl : result = .ok responses := hs
      obtain ⟨others, ho⟩ := runStatements_accepting (before ++ calls) rest
      refine ⟨responses ++ others, ?_⟩
      show (runStatements U (.accepting R) none (before ++ calls) rest).2.map _ = _
      rw [ho]
      rfl

/-- Where nothing fails, each control-plane statement is put to its seam. -/
theorem mem_doQuery_accepting {query s} (hs : s ∈ handledStatements U query)
    (hd : isControlPlaneDdl U s.text = true) :
    ∃ entry ∈ (doQuery U (.accepting R) none query).1, entry.statement = s ∧ entry.call.isApply = true := by
  rw [isControlPlaneDdl_eq] at hd
  obtain ⟨ddl, hp⟩ := Option.isSome_iff_exists.mp hd
  refine ⟨⟨s, .apply (Surroundings.org (.accepting R)) ddl⟩, ?_, rfl, rfl⟩
  unfold handledStatements at hs
  unfold doQuery
  split_ifs at hs ⊢
  · have hr := sequential_runStatements U (.accepting R) none [] (pairwise_splitSqlStatements query)
    obtain ⟨responses, hok⟩ := runStatements_accepting (R := R) U [] (splitSqlStatements query)
    have hc := hr.done responses hok s hs
    unfold routedCall at hc
    rw [hp] at hc
    exact List.one_le_count_iff.mp hc.ge
  · obtain rfl := List.mem_singleton.mp hs
    have hl : LedBy (";" :: ddlKeywords) (trimStart query) :=
      ((ledBy_of_isControlPlaneDdl U (isControlPlaneDdl_eq U query ▸ hd)).of_isPrefix
        (withoutTerminator_isPrefix query)).mono (List.subset_cons_self _ _)
    obtain ⟨hn, hco⟩ := not_command hl
    have hok : ∃ responses, (runMessage U (.accepting R) none query).2 = .ok responses := by
      obtain ⟨tag, ht⟩ := applyDdl_accepting (R := R) [] ddl
      refine ⟨[.execution tag], ?_⟩
      unfold runMessage
      rw [hn, isControlPlaneDdl_eq, hp]
      show (applyDdl (.accepting R) [] ddl).2.map _ = _
      rw [ht]
      rfl
    obtain ⟨responses, hok⟩ := hok
    have hc := (sequential_runMessage U (.accepting R) none hn hco).done responses hok _
      (List.mem_singleton_self _)
    unfold messageCall at hc
    rw [hp] at hc
    exact List.one_le_count_iff.mp hc.ge

/-! ## Statements of the message -/

/-- The statement is one of those that PostgreSQL reads off the message, up to one `;` at its end. -/
def IsPostgresStatement (query : Text) (s : Statement) : Prop := ∃ p ∈ postgresStatements query, p.core = s.core

end Dataglot
