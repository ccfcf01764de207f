/-
The guard against deep compound identifiers (`identifier_guard.rs`), and the texts that
`do_query` hands to the SQL planner: the planner does not survive an identifier of more
parts than it knows, so that every text should pass the guard on its way there.

A run is looked at as the list of its steps at the guard and at the planner. The planner
is reached through `create_logical_plan`, through `ctx.sql` behind a `COPY`, through the
inner handler, and through the lineage observer, which plans the text of a query that
completes without a plan.
-/
import Dataglot.Pgwire.TopLevelDdl

namespace Sqlparser

/-- An expression, as far as the guard looks. -/
inductive Expr
  | compoundIdentifier (parts : List String)
  | other

/-- What the parser makes of a text in its generic dialect. -/
structure Grammar (S : Type) where
  parseSql : List Char → Option (List S)
  /-- The expressions of a statement, in the order of `visit_expressions`. -/
  expressions : S → List Expr

end Sqlparser

namespace Dataglot
open DataFusion Text

/-! ## The guard -/

section Guard

variable {S : Type} (G : Sqlparser.Grammar S)

def maxIdentifierParts : Nat := 5

/-- What the visitor breaks off with. -/
def offendingParts : Sqlparser.Expr → Option Nat
  | .compoundIdentifier parts => if maxIdentifierParts < parts.length then some parts.length else none
  | .other => none

/-- `reject_deep_compound_identifier`. A text that does not parse is let through. -/
def rejectDeepCompoundIdentifier (sql : Text) : Option PgWireError := do
  let statements ← G.parseSql sql
  let n ← statements.findSome? fun stmt => (G.expressions stmt).findSome? offendingParts
  some ⟨"42601", "compound identifier has too many parts (" ++ toString n ++ "; maximum is " ++
    toString maxIdentifierParts ++ ")"⟩

/-- The text has a compound identifier of more parts than the planner knows. -/
def HasDeepIdentifier (sql : Text) : Prop :=
  ∃ statements, G.parseSql sql = some statements ∧ ∃ stmt ∈ statements, ∃ parts,
    .compoundIdentifier parts ∈ G.expressions stmt ∧ maxIdentifierParts < parts.length

theorem offendingParts_eq_none_iff {e} :
    offendingParts e = none ↔ ∀ parts, e = .compoundIdentifier parts → parts.length ≤ maxIdentifierParts := by
  cases e with
  | other => simp [offendingParts]
  | compoundIdentifier parts => simp [offendingParts]

theorem rejectDeepCompoundIdentifier_eq_none_iff {sql} :
    rejectDeepCompoundIdentifier G sql = none ↔ ¬ HasDeepIdentifier G sql := by
  unfold rejectDeepCompoundIdentifier HasDeepIdentifier
  cases G.parseSql sql with
  | none => simp
  | some statements =>
    simp only [Option.bind_eq_bind, Option.bind_some, Option.bind_eq_none_iff, reduceCtorEq, imp_false,
      Option.some.injEq, exists_eq_left', not_exists, not_and, not_lt, ← Option.eq_none_iff_forall_ne_some,
      List.findSome?_eq_none_iff, offendingParts_eq_none_iff]
    exact ⟨fun h stmt hs parts hp => h stmt hs _ hp parts rfl,
      fun h stmt hs e he parts hp => h stmt hs parts (hp ▸ he)⟩

end Guard

/-! ## Steps at the guard and at the planner -/

inductive PlannerStep
  | accepted (text : Text)
  | refused (text : Text)
  | plan (text : Text)
  deriving DecidableEq

/-- Every text is accepted before it is planned. -/
def Covered (steps : List PlannerStep) : Prop :=
  ∀ before text after, steps = before ++ .plan text :: after → .accepted text ∈ before

/-- Steps that do not pass the guard. -/
def Unguarded (steps : List PlannerStep) : Prop := ∀ step ∈ steps, ∃ text, step = .plan text

theorem not_covered_plan (text) (after) : ¬ Covered (.plan text :: after) := by
  intro hc
  cases hc [] text after rfl

theorem covered_iff_of_unguarded {steps} (h : Unguarded steps) : Covered steps ↔ steps = [] := by
  constructor
  · intro hc
    cases steps with
    | nil => rfl
    | cons step after =>
      obtain ⟨text, rfl⟩ := h step List.mem_cons_self
      exact absurd hc (not_covered_plan text after)
  · rintro rfl before text after hs
    cases before <;> cases hs

theorem covered_of_accepted {text steps} (h : ∀ step ∈ steps, step = .plan text) :
    Covered (.accepted text :: steps) := by
  intro before planned after hs
  cases before with
  | nil => cases hs
  | cons step before =>
    obtain ⟨rfl, rfl⟩ := List.cons.inj hs
    cases h (.plan planned) (List.mem_append_right _ List.mem_cons_self)
    exact List.mem_cons_self

theorem covered_refused (text) : Covered [.refused text] := by
  intro before planned after hs
  have hm : .plan planned ∈ [PlannerStep.refused text] := hs ▸ List.mem_append_right _ List.mem_cons_self
  cases List.mem_singleton.mp hm

/-- The text that a call hands to the planner. -/
def Call.planned : Call → Option Text
  | .createLogicalPlan query => some query.toList
  | .copyOut query => some query
  | .inner query => some query
  | .apply _ _ | .registerCatalog _ | .registerTable _ | .deregisterTable _ => none

def planSteps (calls : List Call) : List PlannerStep := (calls.filterMap Call.planned).map .plan

theorem unguarded_planSteps (calls) : Unguarded (planSteps calls) := by
  intro step hstep
  obtain ⟨text, -, rfl⟩ := List.mem_map.mp hstep
  exact ⟨text, rfl⟩

theorem planSteps_eq_nil_iff {calls} : planSteps calls = [] ↔ ∀ c ∈ calls, c.planned = none := by
  simp [planSteps]

/-! ## The observers of a query -/

inductive QueryObserver
  | metrics
  | lineage
  | registry (captureSources : Bool)
  deriving DecidableEq

def QueryObserver.wantsPlan : QueryObserver → Bool
  | .metrics => false
  | .lineage => true
  | .registry captureSources => captureSources

/-- `on_query_complete`: only the lineage observer plans, and only what it is given no plan for. -/
def QueryObserver.onQueryComplete (query : Text) (hasPlan : Bool) : QueryObserver → List PlannerStep
  | .lineage => if hasPlan then [] else [.plan query]
  | .metrics | .registry _ => []

/-- `on_query_complete` of the composite. -/
def onQueryComplete (observers : List QueryObserver) (query : Text) (hasPlan : Bool) : List PlannerStep :=
  observers.flatMap (QueryObserver.onQueryComplete query hasPlan)

theorem eq_plan_of_mem_onQueryComplete {observers query ha step}
    (h : step ∈ onQueryComplete observers query ha) : step = .plan query := by
  obtain ⟨observer, -, hstep⟩ := List.mem_flatMap.mp h
  cases observer with
  | metrics | registry => cases hstep
  | lineage =>
    rw [QueryObserver.onQueryComplete] at hstep
    split_ifs at hstep
    · cases hstep
    · exact List.mem_singleton.mp hstep

theorem onQueryComplete_eq_nil_iff {observers query} :
    onQueryComplete observers query false = [] ↔ .lineage ∉ observers := by
  rw [onQueryComplete, List.flatMap_eq_nil_iff]
  constructor
  · intro h hm
    cases h _ hm
  · intro h observer hm
    cases observer with
    | metrics | registry => rfl
    | lineage => exact absurd hm h

/-! ## The exits of the handler -/

/-- How `do_query` takes a message. -/
inductive Exit
  | bundle (statements : List Statement)
  | noop
  | denied
  | controlPlane (ddl : ControlPlaneDdl)
  | copyOut (query : Text)
  | query (effective : Text)
  deriving DecidableEq

section Handler

variable {R : Type} (U : UnicodeTables) (E : Surroundings R) (principal : Option AuthPrincipal)
  (observers : List QueryObserver)

/-- The tests of `do_query`, in its order. -/
def exitOf (query : Text) : Exit :=
  if isBundle U query then .bundle (splitSqlStatements query)
  else if (noopCommandTag query).isSome then .noop
  else if isControlPlaneDdl U query && (adminDenial principal).isSome then .denied
  else
    match parseControlPlaneDdl U query with
    | some ddl => .controlPlane ddl
    | none =>
      match detectCopyToStdout query with
      | some inner => .copyOut inner
      | none => .query ((E.applyPreparseRewrites query).getD query)

/-- The calls of the handler at an exit. -/
def Exit.calls : Exit → List Call
  | .bundle statements => (runStatements U E principal [] statements).1.map Entry.call
  | .noop | .denied => []
  | .controlPlane ddl => (applyDdl E [] ddl).1
  | .copyOut inner => [.copyOut inner]
  | .query effective => if (E.rejectDeepCompoundIdentifier effective).isSome then [] else [.inner effective]

/-- What `do_query` does at the guard and at the planner. Only a query goes past the guard. -/
def doQuerySteps (query : Text) : List PlannerStep :=
  match exitOf U E principal query with
  | .query effective =>
    match E.rejectDeepCompoundIdentifier effective with
    | some _ => [.refused effective]
    | none =>
      let wanted := observers.any QueryObserver.wantsPlan
      -- A plan that an observer wants is made beside the inner handler's own.
      let captured := if wanted then [.plan effective] else []
      let hasPlan := wanted && (E.createLogicalPlan [] (String.ofList effective)).isOk
      .accepted effective :: (captured ++ planSteps [.inner effective] ++ onQueryComplete observers effective hasPlan)
  | exit => planSteps (exit.calls U E principal) ++ onQueryComplete observers query false

/-! ## What the exits plan -/

/-- The statement is a view whose query is planned. -/
def plansView : ControlPlaneDdl → Bool
  | .view (.create ..) => E.configured .view
  | _ => false

variable (before : List Call)

theorem planned_applyCatalogDdl (ddl) : ∀ c ∈ (applyCatalogDdl E before ddl).1, c.planned = none := by
  unfold applyCatalogDdl
  split_ifs
  · dsimp only
    cases E.catalogApply before ddl with
    | error e => simp [Call.planned]
    | ok outcome => cases outcome <;> simp [Call.planned]
  · exact List.forall_mem_nil _

theorem planned_applyPlainDdl (ddl) (notConfigured verb) :
    ∀ c ∈ (applyPlainDdl E before ddl notConfigured verb).1, c.planned = none := by
  unfold applyPlainDdl
  split_ifs
  · simp [Call.planned]
  · exact List.forall_mem_nil _

theorem planned_applyViewDdl_drop (catalog schema) (name)
    (ifExists) : ∀ c ∈ (applyViewDdl E before (.drop catalog schema name ifExists)).1, c.planned = none := by
  unfold applyViewDdl
  split_ifs
  · dsimp only
    cases E.viewApply before (.drop catalog schema name ifExists) with
    | error e => simp [Call.planned]
    | ok outcome =>
      cases outcome with
      | created | replaced | noOp => simp [Call.planned]
      | dropped catalog schema name =>
        dsimp only
        cases E.deregisterTable _ (viewTableReference catalog schema name) <;> simp [Call.planned]
  · exact List.forall_mem_nil _

theorem applyViewDdl_create_calls (catalog schema) (name query)
    (orReplace) (h : E.configured .view = true) :
    ∃ calls, (applyViewDdl E before (.create catalog schema name query orReplace)).1 =
      .createLogicalPlan query :: calls := by
  unfold applyViewDdl
  rw [if_pos h]
  dsimp only
  cases E.createLogicalPlan before query with
  | error e => exact ⟨_, rfl⟩
  | ok _ =>
    dsimp only
    cases E.viewApply _ (.create catalog schema name query orReplace) with
    | error e => exact ⟨_, rfl⟩
    | ok outcome =>
      cases outcome with
      | dropped | noOp => exact ⟨_, rfl⟩
      | created | replaced =>
        dsimp only
        cases E.registerTable _ (viewTableReference catalog schema name) <;> exact ⟨_, rfl⟩

theorem planned_applyViewDdl_iff {before ddl} :
    (∀ c ∈ (applyViewDdl E before ddl).1, c.planned = none) ↔ plansView E (.view ddl) = false := by
  cases ddl with
  | drop catalog schema name ifExists =>
    exact iff_of_true (planned_applyViewDdl_drop E before catalog schema name ifExists) rfl
  | create catalog schema name query orReplace =>
    cases h : E.configured .view with
    | false =>
      refine iff_of_true ?_ h
      rw [applyViewDdl, if_neg (Bool.eq_false_iff.mp h)]
      exact List.forall_mem_nil _
    | true =>
      refine iff_of_false (fun ha => ?_) (by simp [plansView, h])
      obtain ⟨calls, hc⟩ := applyViewDdl_create_calls E before catalog schema name query orReplace h
      rw [hc] at ha
      cases ha _ List.mem_cons_self

theorem plansView_of_not_view {ddl} (h : ddl.seam ≠ .view) : plansView E ddl = false := by
  cases ddl with
  | view => exact absurd rfl h
  | _ => rfl

theorem planned_applyDdl_iff {before} (ddl) :
    (∀ c ∈ (applyDdl E before ddl).1, c.planned = none) ↔ plansView E ddl = false := by
  refine applyDdl_cases E before
    (motive := fun ddl outcome => (∀ c ∈ outcome.1, c.planned = none) ↔ plansView E ddl = false) (fun ddl => ?_)
    (fun _ => planned_applyViewDdl_iff E) (fun ddl notConfigured verb hv => ?_) ddl
  · exact iff_of_true (planned_applyCatalogDdl E before ddl) rfl
  · exact iff_of_true (planned_applyPlainDdl E before ddl notConfigured verb) (plansView_of_not_view E hv)

/-- The statement of a bundle is one that neither its seam nor the inner handler plans. -/
def PlansNothing (stmt : Text) : Prop :=
  ∃ ddl, parseControlPlaneDdl U stmt = some ddl ∧ (adminDenial principal = none → plansView E ddl = false)

theorem planned_runStatement_iff (stmt) :
    (∀ c ∈ (runStatement U E principal before stmt).1, c.planned = none) ↔ PlansNothing U E principal stmt := by
  unfold runStatement tryApplyControlPlaneDdl PlansNothing
  cases parseControlPlaneDdl U stmt with
  | none => simp [Call.planned]
  | some ddl =>
    cases hadmin : adminDenial principal with
    | some denied => simp
    | none => simpa using planned_applyDdl_iff E ddl

/-- The statements of a bundle that the loop comes to. -/
def reached : List Call → List Statement → List Statement
  | _, [] => []
  | before, s :: rest =>
    match runStatement U E principal before s.text with
    | (_, .error _) => [s]
    | (calls, .ok _) => s :: reached (before ++ calls) rest

theorem planned_runStatements_iff : ∀ before statements,
    (∀ entry ∈ (runStatements U E principal before statements).1, entry.call.planned = none) ↔
      ∀ s ∈ reached U E principal before statements, PlansNothing U E principal s.text
  | _, [] => iff_of_true (List.forall_mem_nil _) (List.forall_mem_nil _)
  | before, s :: rest => by
    have hs := planned_runStatement_iff U E principal before s.text
    unfold reached
    cases hr : runStatement U E principal before s.text with
    | mk calls result =>
      rw [hr] at hs
      cases result with
      | error e =>
        rw [runStatements_cons_error rest hr]
        simpa using hs
      | ok responses =>
        have ih := planned_runStatements_iff (before ++ calls) rest
        rw [runStatements_cons_ok rest hr, List.forall_mem_cons, ← ih, ← hs]
        simp only [List.forall_mem_append, List.forall_mem_map]

/-- The exit lets no text through to the planner that has not passed the guard. -/
def Exit.Guarded : Exit → Prop
  | .bundle statements =>
    .lineage ∉ observers ∧ ∀ s ∈ reached U E principal [] statements, PlansNothing U E principal s.text
  | .noop | .denied => .lineage ∉ observers
  | .controlPlane ddl => .lineage ∉ observers ∧ plansView E ddl = false
  | .copyOut _ => False
  | .query _ => True

theorem covered_of_calls_iff {calls query} : Covered (planSteps calls ++ onQueryComplete observers query false) ↔
      .lineage ∉ observers ∧ ∀ c ∈ calls, c.planned = none := by
  have hu : Unguarded (planSteps calls ++ onQueryComplete observers query false) := by
    intro step hstep
    rcases List.mem_append.mp hstep with hstep | hstep
    · exact unguarded_planSteps calls step hstep
    · exact ⟨query, eq_plan_of_mem_onQueryComplete hstep⟩
  rw [covered_iff_of_unguarded hu, List.append_eq_nil_iff, planSteps_eq_nil_iff, onQueryComplete_eq_nil_iff,
    and_comm]

/-- All that is planned behind the guard is the text that it accepted. -/
theorem planned_behind_guard {effective ha step}
    (h : step ∈ (if observers.any QueryObserver.wantsPlan then [PlannerStep.plan effective] else []) ++
      planSteps [.inner effective] ++ onQueryComplete observers effective ha) : step = .plan effective := by
  rcases List.mem_append.mp h with h | h
  · rcases List.mem_append.mp h with h | h
    · split_ifs at h
      · exact List.mem_singleton.mp h
      · cases h
    · exact List.mem_singleton.mp h
  · exact eq_plan_of_mem_onQueryComplete h

theorem covered_doQuerySteps_iff (query) : Covered (doQuerySteps U E principal observers query) ↔
      (exitOf U E principal query).Guarded U E principal observers := by
  unfold doQuerySteps
  cases exitOf U E principal query with
  | bundle statements =>
    dsimp only
    rw [covered_of_calls_iff, Exit.calls, List.forall_mem_map, planned_runStatements_iff, Exit.Guarded]
  | noop | denied =>
    dsimp only
    rw [covered_of_calls_iff, Exit.calls, Exit.Guarded]
    simp
  | controlPlane ddl =>
    dsimp only
    rw [covered_of_calls_iff, Exit.calls, planned_applyDdl_iff, Exit.Guarded]
  | copyOut inner =>
    dsimp only
    rw [covered_of_calls_iff, Exit.calls, Exit.Guarded]
    simp [Call.planned]
  | query effective =>
    refine iff_of_true ?_ trivial
    dsimp only
    cases E.rejectDeepCompoundIdentifier effective with
    | some e => exact covered_refused effective
    | none => exact covered_of_accepted fun step hstep => planned_behind_guard observers hstep

theorem rejectDeepCompoundIdentifier_of_accepted {query text}
    (h : .accepted text ∈ doQuerySteps U E principal observers query) :
    E.rejectDeepCompoundIdentifier text = none := by
  have hc : ∀ calls, .accepted text ∉ planSteps calls ++ onQueryComplete observers query false := by
    intro calls hm
    rcases List.mem_append.mp hm with hm | hm
    · obtain ⟨planned, hp⟩ := unguarded_planSteps calls _ hm
      cases hp
    · cases eq_plan_of_mem_onQueryComplete hm
  unfold doQuerySteps at h
  cases he : exitOf U E principal query with
  | bundle | noop | denied | controlPlane | copyOut =>
    rw [he] at h
    exact absurd h (hc _)
  | query effective =>
    rw [he] at h
    dsimp only at h
    cases hg : E.rejectDeepCompoundIdentifier effective with
    | some e =>
      rw [hg] at h
      cases List.mem_singleton.mp h
    | none =>
      rw [hg] at h
      rcases List.mem_cons.mp h with heq | hm
      · cases heq
        exact hg
      · cases planned_behind_guard observers hm

/-- The handler with the guard of the source. -/
def Surroundings.guardedBy {S : Type} (G : Sqlparser.Grammar S) : Surroundings R :=
  { E with rejectDeepCompoundIdentifier := Dataglot.rejectDeepCompoundIdentifier G }

/-- Every text that a message hands to the planner has passed the guard, if and only if the message leaves
`do_query` where no text is planned or where the guard stands; and then none of the texts has an identifier
that is too deep. -/
theorem planned_texts_covered_iff {S : Type} (G : Sqlparser.Grammar S) (query : Text) :
    let steps := doQuerySteps U (E.guardedBy G) principal observers query
    (Covered steps ↔ (exitOf U (E.guardedBy G) principal query).Guarded U (E.guardedBy G) principal observers) ∧
      (Covered steps → ∀ text, .plan text ∈ steps → ¬ HasDeepIdentifier G text) := by
  refine ⟨covered_doQuerySteps_iff U _ principal observers query, fun hc text hplan => ?_⟩
  obtain ⟨before, after, hs⟩ := List.append_of_mem hplan
  have ha := hc before text after hs
  have hm := List.mem_append_left (.plan text :: after) ha
  rw [← hs] at hm
  exact (rejectDeepCompoundIdentifier_eq_none_iff G).mp
    (rejectDeepCompoundIdentifier_of_accepted U _ principal observers hm)

end Handler

/-- An identifier of five parts passes the guard. -/
theorem planned_texts_covered_of_five_parts :
    let G : Sqlparser.Grammar (List String) :=
      ⟨fun _ => some [["a", "b", "c", "d", "e"]], fun s => [.compoundIdentifier s]⟩
    let query := "SELECT a.b.c.d.e".toList
    let steps := doQuerySteps .ascii ((Surroundings.accepting Unit).guardedBy G) none [.lineage] query
    steps = [.accepted query, .plan query, .plan query] ∧ ¬ HasDeepIdentifier G query := by
  intro G query steps
  have hs : steps = [.accepted query, .plan query, .plan query] := by decide +kernel
  obtain ⟨hc, hsh⟩ := planned_texts_covered_iff .ascii (.accepting Unit) none [.lineage] G query
  refine ⟨hs, hsh (hc.mpr ?_) query ?_⟩
  · have he : exitOf .ascii ((Surroundings.accepting Unit).guardedBy G) none query = .query query := by
      decide +kernel
    rw [he]
    exact trivial
  · show _ ∈ steps
    rw [hs]
    decide

/-- Behind a `COPY`, beside a control-plane statement and in a view, an identifier of six parts gets past
the guard. -/
theorem deep_identifier_reaches_planner :
    let text := "SELECT a.b.c.d.e.f".toList
    let G : Sqlparser.Grammar (List String) :=
      ⟨fun sql => if sql = text then some [["a", "b", "c", "d", "e", "f"]] else none, fun s => [.compoundIdentifier s]⟩
    let steps := doQuerySteps .ascii ((Surroundings.accepting Unit).guardedBy G) (some ⟨[], true, true⟩) []
    HasDeepIdentifier G text ∧ steps text = [.refused text] ∧
      ∀ query ∈ ["COPY (SELECT a.b.c.d.e.f) TO STDOUT".toList, "SELECT a.b.c.d.e.f; DROP SECRET s".toList,
        "CREATE VIEW v AS SELECT a.b.c.d.e.f".toList], steps query = [.plan text] ∧ ¬ Covered (steps query) := by
  intro text G steps
  have hd : HasDeepIdentifier G text :=
    ⟨[["a", "b", "c", "d", "e", "f"]], rfl, _, List.mem_singleton_self _, _, List.mem_singleton_self _, by decide⟩
  have hr : steps text = [.refused text] := by decide +kernel
  have hp : ∀ query ∈ ["COPY (SELECT a.b.c.d.e.f) TO STDOUT".toList, "SELECT a.b.c.d.e.f; DROP SECRET s".toList,
      "CREATE VIEW v AS SELECT a.b.c.d.e.f".toList], steps query = [.plan text] := by
    decide +kernel
  refine ⟨hd, hr, fun query hq => ⟨hp query hq, ?_⟩⟩
  rw [hp query hq]
  exact not_covered_plan text []

end Dataglot
