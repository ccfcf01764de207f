/-
The admin gate, and the order in which a message's statements are handled.
-/
import Dataglot.Pgwire.Handler

namespace Dataglot
open DataFusion Text Statement Call Entry List

/-! ## Where a statement goes -/

/-- Who acts on a call. The other calls are the handler's own dealings with its session. -/
inductive Target
  | seam (seam : Seam)
  | innerHandler
  | copyOut
  deriving DecidableEq

def Call.target : Call → Option Target
  | .apply _ ddl => some (.seam ddl.seam)
  | .inner _ => some .innerHandler
  | .copyOut _ => some .copyOut
  | .createLogicalPlan _ | .registerCatalog _ | .registerTable _ | .deregisterTable _ => none

/-- What was called for a statement is `call`, at most once, and nobody else than whom it is for; without
an error it was called. -/
structure Routed {α : Type} (call : Call) (outcome : Outcome α) : Prop where
  target : ∀ c ∈ outcome.1, c.target = none ∨ c.target = call.target
  once : outcome.1.count call ≤ 1
  done : ∀ a, outcome.2 = .ok a → outcome.1.count call = 1

namespace Routed

variable {α β : Type} {call : Call} {calls : List Call}

theorem refused {e} : Routed call (([], .error e) : Outcome α) :=
  ⟨forall_mem_nil _, Nat.zero_le 1, nofun⟩

variable {result : Except PgWireError α}

theorem among (front back)
    (h : ∀ c ∈ front ++ back, c ≠ call ∧ (c.target = none ∨ c.target = call.target)) :
    Routed call (front ++ call :: back, result) := by
  have hco : (front ++ call :: back).count call = 1 := by
    have hf : front.count call = 0 :=
      count_eq_zero.mpr fun hm => (h call (mem_append_left _ hm)).1 rfl
    have hb : back.count call = 0 :=
      count_eq_zero.mpr fun hm => (h call (mem_append_right _ hm)).1 rfl
    rw [count_append, count_cons_self, hf, hb]
  refine ⟨fun c hc => ?_, hco.le, fun _ _ => hco⟩
  rcases mem_append.mp hc with hc | hc
  · exact (h c (mem_append_left _ hc)).2
  · rcases mem_cons.mp hc with rfl | hc
    · exact .inr rfl
    · exact (h c (mem_append_right _ hc)).2

theorem single : Routed call ([call], result) := among [] [] (by simp)

theorem map (f : α → β) (h : Routed call (calls, result)) : Routed call (calls, result.map f) := by
  refine ⟨h.target, h.once, fun b hb => ?_⟩
  cases result with
  | error e => cases hb
  | ok a => exact h.done a rfl

end Routed

section Seams

variable {R : Type} (E : Surroundings R) (before : List Call)

theorem routed_applyCatalogDdl (ddl) :
    Routed (.apply E.org (.catalog ddl)) (applyCatalogDdl E before ddl) := by
  unfold applyCatalogDdl
  split_ifs
  · dsimp only
    cases E.catalogApply before ddl with
    | error e => exact .single
    | ok outcome =>
      cases outcome with
      | noOp => exact .single
      | registered name | dropped name => exact .among [] [.registerCatalog name] (by simp [target])
  · exact .refused

theorem routed_applyPlainDdl (ddl) (notConfigured verb) :
    Routed (.apply E.org ddl) (applyPlainDdl E before ddl notConfigured verb) := by
  unfold applyPlainDdl
  split_ifs
  · exact .single
  · exact .refused

theorem routed_applyViewDdl (ddl) : Routed (.apply E.org (.view ddl)) (applyViewDdl E before ddl) := by
  unfold applyViewDdl
  split_ifs
  · dsimp only
    cases ddl with
    | create catalog schema name query orReplace =>
      dsimp only
      cases E.createLogicalPlan before query with
      | error e => exact ⟨by simp [target], by simp, nofun⟩
      | ok _ =>
        dsimp only
        cases E.viewApply _ (.create catalog schema name query orReplace) with
        | error e => exact .among [.createLogicalPlan query] [] (by simp [target])
        | ok outcome =>
          cases outcome with
          | created | replaced =>
            dsimp only
            cases E.registerTable _ (viewTableReference catalog schema name) with
            | error e =>
              -- The view that is taken back is another statement for the same seam.
              exact .among [.createLogicalPlan query]
                [.registerTable _, .apply E.org (.view (.drop catalog schema name true))]
                (by simp [target, ControlPlaneDdl.seam])
            | ok _ => exact .among [.createLogicalPlan query] [.registerTable _] (by simp [target])
          | dropped | noOp => exact .among [.createLogicalPlan query] [] (by simp [target])
    | drop catalog schema name ifExists =>
      dsimp only
      cases E.viewApply before (.drop catalog schema name ifExists) with
      | error e => exact .single
      | ok outcome =>
        cases outcome with
        | dropped catalog schema name =>
          dsimp only
          cases E.deregisterTable _ (viewTableReference catalog schema name) with
          | error e => exact .among [] [.deregisterTable _] (by simp [target])
          | ok _ => exact .among [] [.deregisterTable _] (by simp [target])
        | created | replaced | noOp => exact .single
  · exact .refused

/-- A parsed statement is for its seam only, and is put to it once. -/
theorem routed_applyDdl (ddl) : Routed (.apply E.org ddl) (applyDdl E before ddl) := by
  refine applyDdl_cases E before (motive := fun ddl outcome => Routed (.apply E.org ddl) outcome)
    (routed_applyCatalogDdl E before) (routed_applyViewDdl E before) (fun ddl notConfigured verb _ => ?_) ddl
  exact routed_applyPlainDdl E before ddl notConfigured verb

end Seams

/-! ## One statement after the other -/

def callsFor (statements : List Statement) (entries : List Entry) : List Call :=
  (entries.filter fun entry => entry.statement ∈ statements).map (·.call)

/-- A run over `statements`, each handled by `handle` with the calls made so far and routed to `routed`:
the calls follow the text, each statement is routed once at most, and an error of one ends the run before
the statements behind it. -/
structure Sequential {α : Type} (statements : List Statement) (handle : List Call → Statement → Outcome α)
    (routed : Statement → Call) (run : List Entry × Except PgWireError α) : Prop where
  textual : run.1.Pairwise fun a b => a.statement = b.statement ∨ a.statement.Precedes b.statement
  ofStatements : ∀ entry ∈ run.1, entry.statement ∈ statements
  target : ∀ entry ∈ run.1, entry.call.target = none ∨ entry.call.target = (routed entry.statement).target
  once : ∀ s ∈ statements, run.1.count ⟨s, routed s⟩ ≤ 1
  stops : ∀ front s back e, statements = front ++ s :: back → (handle (callsFor front run.1) s).2 = .error e →
    (∃ e', run.2 = .error e') ∧ ∀ entry ∈ run.1, entry.statement ∉ back
  fails : ∀ e, run.2 = .error e → ∃ front s back, statements = front ++ s :: back ∧
    handle (callsFor front run.1) s = (callsFor [s] run.1, .error e)
  done : ∀ a, run.2 = .ok a → ∀ s ∈ statements, run.1.count ⟨s, routed s⟩ = 1

theorem callsFor_append (statements) (a b) :
    callsFor statements (a ++ b) = callsFor statements a ++ callsFor statements b := by
  rw [callsFor, filter_append, map_append]
  rfl

theorem callsFor_nil (entries) : callsFor [] entries = [] := by simp [callsFor]

variable {s : Statement} {statements : List Statement}

theorem callsFor_map_mk (h : s ∈ statements) (calls) :
    callsFor statements (calls.map (mk s)) = calls := by
  simp [callsFor, filter_map, Function.comp_def, h]

theorem callsFor_map_mk_of_notMem (h : s ∉ statements)
    (calls : List Call) : callsFor statements (calls.map (mk s)) = [] := by
  simp [callsFor, filter_map, Function.comp_def, h]

theorem callsFor_cons_of_notMem {entries}
    (h : ∀ entry ∈ entries, entry.statement ≠ s) : callsFor
    (s :: statements) entries = callsFor statements entries := by
  unfold callsFor
  congr 1
  refine filter_congr fun entry he => ?_
  simp [h entry he]

theorem count_map_mk (s t : Statement) (call) (calls : List Call) :
    (calls.map (mk s)).count ⟨t, call⟩ = if s = t then calls.count call else 0 := by
  split_ifs with h
  · subst h
    exact count_map_of_injective calls (mk s) (fun a b hab => (mk.inj hab).2) call
  · refine count_eq_zero.mpr fun hm => ?_
    obtain ⟨c, -, hc⟩ := mem_map.mp hm
    exact h (mk.inj hc).1

namespace Sequential

variable {α : Type} {handle : List Call → Statement → Outcome α} {routed : Statement → Call} {s : Statement}
  {rest : List Statement} {calls : List Call}

theorem nil {a} : Sequential [] handle routed ([], .ok a) where
  textual := .nil
  ofStatements := forall_mem_nil _
  target := forall_mem_nil _
  once := nofun
  stops front s back e h := by simp at h
  fails := nofun
  done := nofun

theorem mem_map_mk {entry} (h : entry ∈ calls.map (Entry.mk s)) : entry.statement = s ∧ entry.call ∈ calls := by
  obtain ⟨c, hc, rfl⟩ := mem_map.mp h
  exact ⟨rfl, hc⟩

variable {result : Except PgWireError α}

theorem target_map_mk (h : Routed (routed s) (calls, result)) : ∀ entry ∈ calls.map (Entry.mk s),
      entry.call.target = none ∨ entry.call.target = (routed entry.statement).target := by
  intro entry he
  obtain ⟨hs, hc⟩ := mem_map_mk he
  rw [hs]
  exact h.target _ hc

theorem textual_map_mk : (calls.map (Entry.mk s)).Pairwise fun a b =>
    a.statement = b.statement ∨ a.statement.Precedes b.statement :=
  pairwise_map.mpr (pairwise_of_forall fun _ _ => .inl rfl)

theorem back_subset {front back t} (h : s :: rest = front ++ t :: back) : back ⊆ rest := by
  intro u hu
  cases front with
  | nil => exact (cons.inj h).2 ▸ hu
  | cons v front =>
    rw [(cons.inj h).2]
    exact mem_append_right _ (mem_cons_of_mem _ hu)

theorem stop {e} (hn : s ∉ rest) (hh : handle [] s = (calls, .error e))
    (hr : Routed (routed s) (calls, (.error e : Except PgWireError α))) :
    Sequential (s :: rest) handle routed (calls.map (Entry.mk s), .error e) where
  textual := textual_map_mk
  ofStatements entry hen := by
    rw [(mem_map_mk hen).1]
    exact mem_cons_self
  target := target_map_mk hr
  once t _ := by
    rw [count_map_mk]
    split_ifs with h
    · subst h
      exact hr.once
    · exact Nat.zero_le 1
  stops front t back e' h _ := by
    refine ⟨⟨e, rfl⟩, fun entry hen hm => hn ?_⟩
    rw [← (mem_map_mk hen).1]
    exact back_subset h hm
  fails e' he := by
    cases he
    refine ⟨[], s, rest, rfl, ?_⟩
    rw [callsFor_nil, hh, callsFor_map_mk (mem_singleton_self s)]
  done := nofun

theorem step {a entries} (f)
    (hs : ∀ t ∈ rest, s.Precedes t) (hh : handle [] s = (calls, .ok a))
    (hr : Routed (routed s) (calls, .ok a))
    (ih : Sequential rest (fun before t => handle (calls ++ before) t) routed (entries, result)) :
    Sequential (s :: rest) handle routed (calls.map (Entry.mk s) ++ entries, result.map f) := by
  have hne : ∀ t ∈ rest, t ≠ s := fun t ht => (hs t ht).ne.symm
  have ho : ∀ entry ∈ entries, entry.statement ≠ s := fun entry hen => hne _ (ih.ofStatements entry hen)
  -- The calls for `s` and some of the others are those for `s`, then those for the others.
  have hc : ∀ front, callsFor (s :: front) (calls.map (Entry.mk s) ++ entries) = calls ++ callsFor front entries := by
    intro front
    rw [callsFor_append, callsFor_map_mk mem_cons_self, callsFor_cons_of_notMem ho]
  have hco : ∀ t, (calls.map (Entry.mk s) ++ entries).count ⟨t, routed t⟩ =
      (if s = t then calls.count (routed t) else 0) + entries.count ⟨t, routed t⟩ := by
    intro t
    rw [count_append, count_map_mk]
  have hz : entries.count ⟨s, routed s⟩ = 0 :=
    count_eq_zero.mpr fun hm => ho _ hm rfl
  constructor
  case textual =>
    refine pairwise_append.mpr ⟨textual_map_mk, ih.textual, fun entry hen other hot => .inr ?_⟩
    rw [(mem_map_mk hen).1]
    exact hs _ (ih.ofStatements other hot)
  case ofStatements =>
    intro entry hen
    rcases mem_append.mp hen with hen | hen
    · rw [(mem_map_mk hen).1]
      exact mem_cons_self
    · exact mem_cons_of_mem _ (ih.ofStatements entry hen)
  case target =>
    intro entry hen
    rcases mem_append.mp hen with hen | hen
    · exact target_map_mk hr entry hen
    · exact ih.target entry hen
  case once =>
    intro t ht
    rw [hco]
    rcases mem_cons.mp ht with rfl | ht
    · rw [if_pos rfl, hz]
      exact hr.once
    · rw [if_neg (hne t ht).symm, Nat.zero_add]
      exact ih.once t ht
  case stops =>
    intro front t back e h her
    cases front with
    | nil =>
      obtain ⟨rfl, -⟩ := cons.inj h
      rw [callsFor_nil, hh] at her
      cases her
    | cons u front =>
      obtain ⟨rfl, hta⟩ := cons.inj h
      rw [hc] at her
      obtain ⟨⟨e', he'⟩, hba⟩ := ih.stops front t back e hta her
      refine ⟨⟨e', ?_⟩, fun entry hen hm => ?_⟩
      · have hres : result = .error e' := he'
        rw [hres]
        rfl
      · rcases mem_append.mp hen with hen | hen
        · rw [(mem_map_mk hen).1] at hm
          exact hne _ (back_subset h hm) rfl
        · exact hba entry hen hm
  case fails =>
    intro e he
    have hres : result = .error e := by
      cases result with
      | error e' => cases he; rfl
      | ok b => cases he
    obtain ⟨front, t, back, hsp, hf⟩ := ih.fails e hres
    have ht : t ∈ rest := by
      rw [hsp]
      exact mem_append_right _ mem_cons_self
    refine ⟨s :: front, t, back, by rw [hsp]; rfl, ?_⟩
    rw [hc, callsFor_append, callsFor_map_mk_of_notMem fun hm => hne t ht (mem_singleton.mp hm).symm]
    exact hf
  case done =>
    intro b hb t ht
    have hres : ∃ b', result = .ok b' := by
      cases result with
      | error e => cases hb
      | ok b' => exact ⟨b', rfl⟩
    obtain ⟨b', hres⟩ := hres
    rw [hco]
    rcases mem_cons.mp ht with rfl | ht
    · rw [if_pos rfl, hz]
      exact hr.done a rfl
    · rw [if_neg (hne t ht).symm, Nat.zero_add]
      exact ih.done b' hres t ht

theorem alone (hh : handle [] s = (calls, result))
    (hr : Routed (routed s) (calls, result)) : Sequential [s] handle routed (calls.map (Entry.mk s), result) := by
  cases result with
  | error e => exact .stop not_mem_nil hh hr
  | ok a =>
    have he : ∀ t ∈ ([] : List Statement), s.Precedes t := by simp
    have hstep := step id he hh hr (nil (a := a))
    rw [append_nil] at hstep
    exact hstep

end Sequential

section Handler

variable {R : Type} (U : UnicodeTables) (E : Surroundings R) (principal : Option AuthPrincipal)

/-- Where a statement of a bundle goes: to its seam, or to the inner handler. -/
def routedCall (stmt : Text) : Call :=
  match parseControlPlaneDdl U stmt with
  | some ddl => .apply E.org ddl
  | none => .inner stmt

theorem routed_runStatement (before) (stmt) :
    Routed (routedCall U E stmt) (runStatement U E principal before stmt) := by
  unfold runStatement tryApplyControlPlaneDdl routedCall
  cases parseControlPlaneDdl U stmt with
  | none => exact .single
  | some ddl =>
    rw [Option.map_some]
    cases adminDenial principal with
    | some denied => exact .refused
    | none => exact (routed_applyDdl E before ddl).map _

/-- Statements in textual order are handled in it. -/
theorem sequential_runStatements : ∀ before {statements}, statements.Pairwise Precedes →
    Sequential statements (fun calls s => runStatement U E principal (before ++ calls) s.text)
      (fun s => routedCall U E s.text) (runStatements U E principal before statements)
  | before, [], _ => .nil
  | before, s :: rest, hp => by
    obtain ⟨hs, hre⟩ := pairwise_cons.mp hp
    have hr := routed_runStatement U E principal before s.text
    cases hru : runStatement U E principal before s.text with
    | mk calls result =>
      have hh : runStatement U E principal (before ++ []) s.text = (calls, result) := by rw [append_nil, hru]
      rw [hru] at hr
      cases result with
      | error e =>
        rw [runStatements_cons_error rest hru]
        exact .stop (fun hm => (hs s hm).ne rfl) hh hr
      | ok responses =>
        have ih := sequential_runStatements (before ++ calls) hre
        simp only [append_assoc] at ih
        rw [runStatements_cons_ok rest hru]
        exact .step (responses ++ ·) hs hh hr ih

/-! ## A message as one statement -/

/-- Where a message that is not a bundle goes. -/
def messageCall (query : Text) : Call :=
  match parseControlPlaneDdl U query with
  | some ddl => .apply E.org ddl
  | none => .inner ((E.applyPreparseRewrites query).getD query)

variable {query : Text}

theorem routed_runMessage (hn : noopCommandTag query = none) (hc : detectCopyToStdout query = none) :
    Routed (messageCall U E query) (runMessage U E principal query) := by
  unfold runMessage messageCall
  rw [hn, hc, isControlPlaneDdl_eq]
  cases parseControlPlaneDdl U query with
  | some ddl =>
    cases adminDenial principal with
    | some denied => exact .refused
    | none => exact (routed_applyDdl E [] ddl).map _
  | none =>
    dsimp only [Option.isSome_none]
    rw [if_neg Bool.false_ne_true]
    dsimp only
    cases E.rejectDeepCompoundIdentifier ((E.applyPreparseRewrites query).getD query) with
    | some e => exact .refused
    | none => exact .single

theorem ledBy_of_first {s more}
    (hs : splitSqlStatements query = s :: more) (hd : isControlPlaneDdl U s.text = true) :
    LedBy (";" :: ddlKeywords) (trimStart query) := by
  rcases first_isPrefix hs with ⟨after, ha⟩ | hl
  · exact ⟨";", mem_cons_self, by rw [ha]; exact prefix_append [';'] _⟩
  · have hle := (ledBy_of_isControlPlaneDdl U hd).of_isPrefix (withoutTerminator_isPrefix s.text)
    rw [trimStart_of_isPrefix hl] at hle
    exact (hle.of_isPrefix hl).mono (subset_cons_self _ _)

theorem sequential_runMessage (hn : noopCommandTag query = none) (hc : detectCopyToStdout query = none) :
    Sequential [⟨0, query⟩] (fun _ s => runMessage U E principal s.text) (fun s => messageCall U E s.text)
      ((runMessage U E principal query).1.map (Entry.mk ⟨0, query⟩), (runMessage U E principal query).2) := by
  exact .alone rfl (routed_runMessage U E principal hn hc)

/-! ## The gate -/

theorem adminDenial_of_not_canAdmin {p} (h : p.canAdmin = false) : ∃ denied, adminDenial (some p) = some denied := by
  unfold adminDenial
  dsimp only
  rw [h]
  exact ⟨_, rfl⟩

variable {principal} {denied : PgWireError}

theorem runStatement_denied (h : adminDenial principal = some denied) (before) (stmt) :
    ∀ c ∈ (runStatement U E principal before stmt).1, c.isApply = false := by
  unfold runStatement tryApplyControlPlaneDdl
  cases parseControlPlaneDdl U stmt with
  | none =>
    intro c hc
    rw [mem_singleton.mp hc]
    rfl
  | some ddl =>
    rw [Option.map_some, h]
    exact forall_mem_nil _

theorem runStatements_denied (h : adminDenial principal = some denied) : ∀ before statements,
    ∀ entry ∈ (runStatements U E principal before statements).1, entry.call.isApply = false
  | _, [] => forall_mem_nil _
  | before, s :: rest => by
    have hs := runStatement_denied U E h before s.text
    intro entry he
    cases hr : runStatement U E principal before s.text with
    | mk calls result =>
      rw [hr] at hs
      cases result with
      | error e =>
        rw [runStatements_cons_error rest hr] at he
        exact hs _ (Sequential.mem_map_mk he).2
      | ok responses =>
        rw [runStatements_cons_ok rest hr] at he
        rcases mem_append.mp he with he | he
        · exact hs _ (Sequential.mem_map_mk he).2
        · exact runStatements_denied h _ rest entry he

/-- A message that is not a control-plane statement reaches no seam. -/
theorem runMessage_of_not_ddl (principal) (h : parseControlPlaneDdl U query = none) :
    ∀ c ∈ (runMessage U E principal query).1, c.isApply = false := by
  intro c hc
  unfold runMessage at hc
  rw [isControlPlaneDdl_eq, h, Option.isSome_none, if_neg Bool.false_ne_true] at hc
  dsimp only at hc
  split at hc
  next => cases hc
  next =>
    split at hc
    next =>
      rw [mem_singleton.mp hc]
      rfl
    next =>
      split at hc
      next => cases hc
      next =>
        rw [mem_singleton.mp hc]
        rfl

theorem runMessage_denied (h : adminDenial principal = some denied) (query) :
    ∀ c ∈ (runMessage U E principal query).1, c.isApply = false := by
  cases hp : parseControlPlaneDdl U query with
  | none => exact runMessage_of_not_ddl U E principal hp
  | some ddl =>
    intro c hc
    unfold runMessage at hc
    rw [isControlPlaneDdl_eq, hp, h] at hc
    split at hc <;> cases hc

/-- The statements that the handler takes one by one: those of a bundle, or else the message. -/
def handledStatements (query : Text) : List Statement :=
  if isBundle U query then splitSqlStatements query else [⟨0, query⟩]

/-- How the handler takes one of them, after the calls it has made. -/
def handleStatement (principal : Option AuthPrincipal) (query : Text) (before : List Call) (s : Statement) :
    Outcome (List (Response R)) :=
  if isBundle U query then runStatement U E principal before s.text else runMessage U E principal s.text

/-- Where it goes: to the seam it parses for, or to the inner handler. -/
def routeOf (query : Text) (s : Statement) : Call :=
  if isBundle U query then routedCall U E s.text else messageCall U E s.text

/-- The gate is complete, and a message that carries control-plane statements is handled statement by
statement: a session that may not administer reaches no seam, and for every session the statements are
taken in the order of the text, each is routed once, to one seam or to the inner handler, and the first
error is the end. -/
theorem doQuery_gated_in_order (query : Text) :
    (∀ p : AuthPrincipal, p.canAdmin = false →
      ∀ entry ∈ (doQuery U E (some p) query).1, entry.call.isApply = false) ∧
    ∀ principal, (∃ s ∈ splitSqlStatements query, isControlPlaneDdl U s.text = true) →
      (handledStatements U query = splitSqlStatements query ∨
        handledStatements U query = [⟨0, query⟩] ∧ (splitSqlStatements query).length = 1) ∧
      Sequential (handledStatements U query) (handleStatement U E principal query) (routeOf U E query)
        (doQuery U E principal query) := by
  refine ⟨fun p hp => ?_, fun principal hc => ?_⟩
  · obtain ⟨denied, hd⟩ := adminDenial_of_not_canAdmin hp
    unfold doQuery
    split_ifs
    · exact runStatements_denied U E hd [] _
    · intro entry he
      exact runMessage_denied U E hd query _ (Sequential.mem_map_mk he).2
  · obtain ⟨s, hs, hdd⟩ := hc
    by_cases hb : isBundle U query = true
    · refine ⟨.inl (if_pos hb), ?_⟩
      unfold handledStatements handleStatement routeOf doQuery
      simp only [hb, if_true]
      exact sequential_runStatements U E principal [] (pairwise_splitSqlStatements query)
    · have hl : (splitSqlStatements query).length = 1 := by
        have hpos : 0 < (splitSqlStatements query).length := List.length_pos_of_mem hs
        have ha : (splitSqlStatements query).any (fun s => isControlPlaneDdl U s.text) = true :=
          List.any_eq_true.mpr ⟨s, hs, hdd⟩
        have hfew : ¬ 2 ≤ (splitSqlStatements query).length := by
          intro hm
          apply hb
          rw [isBundle, ha, decide_eq_true hm]
          rfl
        omega
      obtain ⟨t, ht⟩ := List.length_eq_one_iff.mp hl
      obtain rfl : s = t := List.mem_singleton.mp (ht ▸ hs)
      obtain ⟨hn, hco⟩ := not_command (ledBy_of_first U ht hdd)
      refine ⟨.inr ⟨if_neg hb, hl⟩, ?_⟩
      unfold handledStatements handleStatement routeOf doQuery
      simp only [hb, if_false, Bool.false_eq_true]
      exact sequential_runMessage U E principal hn hco

end Handler

end Dataglot
