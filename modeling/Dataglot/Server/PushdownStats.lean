/-
The pushdown statistics of a query (`attach_pushdown` and `complete` in `query_registry.rs`),
with any number of calls going on at once.

Both maps have a lock of their own. `complete` takes the entry out of the active map under
one lock and puts it into the history under the other; a statistic that comes in between
finds it in neither and is dropped.
-/
import Dataglot.Library.Runs
import Mathlib

namespace Dataglot
open Runs List

def historyCap : Nat := 100

def maxPushdownsPerQuery : Nat := 64

inductive RegistryCall (RunId Stat : Type)
  | attachPushdown (run : RunId) (stat : Stat)
  | complete (run : RunId)
  deriving DecidableEq

inductive RegistryCall.At
  | start
  /-- The run is not active. -/
  | missed
  /-- The entry is out of the active map. -/
  | removed
  | returned
  deriving DecidableEq

structure QueryStats (ι RunId Stat : Type) where
  active : RunId → Option (List Stat)
  /-- What a `complete` has taken out and not yet put into the history. -/
  taken : RunId → Option (List Stat)
  history : List (RunId × List Stat)
  calls : ι → RegistryCall.At

namespace QueryStats

variable {ι RunId Stat : Type} [DecidableEq ι] [DecidableEq RunId]

def pushStat (stat : Stat) (pushdowns : List Stat) : List Stat :=
  if pushdowns.length < maxPushdownsPerQuery then pushdowns ++ [stat] else pushdowns

/-- The first entry of the run gets the statistic. -/
def amend (run : RunId) (stat : Stat) : List (RunId × List Stat) → List (RunId × List Stat)
  | [] => []
  | (r, pushdowns) :: rest =>
    if r = run then (r, pushStat stat pushdowns) :: rest else (r, pushdowns) :: amend run stat rest

def recorded (history : List (RunId × List Stat)) (run : RunId) : Option (List Stat) := history.lookup run

/-- `push_back`, and `pop_front` while the ring is over its cap. -/
def pushBack (entry : RunId × List Stat) (history : List (RunId × List Stat)) : List (RunId × List Stat) :=
  (history ++ [entry]).drop (history.length + 1 - historyCap)

variable (truncate : Stat → Stat) (call : ι → RegistryCall RunId Stat)

/-- The next critical section of a call. -/
def step (s : QueryStats ι RunId Stat) (i : ι) : Option (QueryStats ι RunId Stat) :=
  match call i, s.calls i with
  | .attachPushdown run stat, .start =>
    match s.active run with
    | some pushdowns => some { s with
        active := Function.update s.active run (some (pushStat (truncate stat) pushdowns))
        calls := Function.update s.calls i .returned }
    | none => some { s with calls := Function.update s.calls i .missed }
  | .attachPushdown run stat, .missed => some { s with
      history := amend run (truncate stat) s.history
      calls := Function.update s.calls i .returned }
  | .complete run, .start =>
    match s.active run with
    | some pushdowns => some { s with
        active := Function.update s.active run none
        taken := Function.update s.taken run (some pushdowns)
        calls := Function.update s.calls i .removed }
    | none => some { s with calls := Function.update s.calls i .returned }
  | .complete run, .removed => some { s with
      history := pushBack (run, (s.taken run).getD []) s.history
      taken := Function.update s.taken run none
      calls := Function.update s.calls i .returned }
  | _, _ => none

/-- Every run has been started, and no call has done anything. -/
def initial : QueryStats ι RunId Stat := ⟨fun _ => some [], fun _ => none, [], fun _ => .start⟩

/-- Neither the cap of the run's pushdowns nor that of the history makes the step drop anything. -/
def WithinCaps (s : QueryStats ι RunId Stat) (i : ι) : Prop :=
  match call i, s.calls i with
  | .attachPushdown run _, .start => ∀ l, s.active run = some l → l.length < maxPushdownsPerQuery
  | .attachPushdown run _, .missed => ∀ l, recorded s.history run = some l → l.length < maxPushdownsPerQuery
  | .complete _, .removed => s.history.length < historyCap
  | _, _ => True

/-- The step does not look into the history for a run that a `complete` has in its hands. -/
def Timely (s : QueryStats ι RunId Stat) (i : ι) : Prop :=
  ∀ run stat, call i = .attachPushdown run stat → s.calls i = .missed → s.taken run = none

variable {history : List (RunId × List Stat)} {pushdowns : List Stat} {stat : Stat}

theorem recorded_cons {run run'} : recorded ((run, pushdowns) :: history) run' =
      if run' = run then some pushdowns else recorded history run' := by
  unfold recorded
  split_ifs with h
  · simp [h]
  · rw [lookup_cons, beq_false_of_ne h]

theorem recorded_amend {run run'} : recorded (amend run stat history) run' =
      if run' = run then (recorded history run').map (pushStat stat) else recorded history run' := by
  induction history with
  | nil => simp [amend, recorded]
  | cons entry rest ih =>
    obtain ⟨first, pushdowns⟩ := entry
    by_cases h : first = run
    · simp only [amend, if_pos h, recorded_cons]
      grind
    · simp only [amend, if_neg h, recorded_cons, ih]
      grind

theorem recorded_pushBack {run run'}
    (h : history.length < historyCap) : recorded (pushBack (run, pushdowns) history) run' =
      (recorded history run').or (if run' = run then some pushdowns else none) := by
  have hlast : recorded [(run, pushdowns)] run' = if run' = run then some pushdowns else none := recorded_cons
  rw [← hlast, pushBack, Nat.sub_eq_zero_of_le h, drop_zero]
  exact lookup_append

theorem mem_amend {run entry} (h : entry ∈ amend run stat history) : entry ∈ history ∨
      ∃ pushdowns, (run, pushdowns) ∈ history ∧ entry = (run, pushStat stat pushdowns) := by
  induction history with
  | nil => cases h
  | cons head rest ih =>
    rw [amend] at h
    split_ifs at h with hr
    · rcases mem_cons.mp h with rfl | h
      · exact .inr ⟨head.2, hr ▸ mem_cons_self, by rw [← hr]⟩
      · exact .inl (mem_cons_of_mem _ h)
    · rcases mem_cons.mp h with rfl | h
      · exact .inl mem_cons_self
      · rcases ih h with h | ⟨pushdowns, h, heq⟩
        · exact .inl (mem_cons_of_mem _ h)
        · exact .inr ⟨pushdowns, mem_cons_of_mem _ h, heq⟩

theorem mem_pushStat {x} (h : x ∈ pushStat stat pushdowns) : x = stat ∨ x ∈ pushdowns := by
  unfold pushStat at h
  grind

/-! ## No statistic gets to another run -/

variable {truncate call} {s s' : QueryStats ι RunId Stat} {i : ι}

def Attached (truncate : Stat → Stat) (call : ι → RegistryCall RunId Stat) (run : RunId) (x : Stat) : Prop :=
  ∃ i stat, call i = .attachPushdown run stat ∧ truncate stat = x

/-- Wherever the entry of a run is, it has statistics of the run. -/
structure Owned (truncate : Stat → Stat) (call : ι → RegistryCall RunId Stat) (s : QueryStats ι RunId Stat) : Prop where
  active : ∀ run l, s.active run = some l → ∀ x ∈ l, Attached truncate call run x
  taken : ∀ run, ∀ x ∈ (s.taken run).getD [], Attached truncate call run x
  history : ∀ run l, (run, l) ∈ s.history → ∀ x ∈ l, Attached truncate call run x

theorem owned_step (h : Owned truncate call s) (hstep : step truncate call s i = some s') : Owned truncate call s' := by
  obtain ⟨hactive, htaken, hhistory⟩ := h
  have hcall : ∀ i run stat, call i = .attachPushdown run stat → Attached truncate call run (truncate stat) :=
    fun i run stat h => ⟨i, stat, h, rfl⟩
  unfold step at hstep
  repeat' split at hstep
  all_goals cases hstep
  all_goals constructor
  all_goals grind [→ mem_amend, → mem_pushStat, pushBack, mem_of_mem_drop, Function.update_apply]

/-! ## No statistic is lost -/

structure Kept (truncate : Stat → Stat) (call : ι → RegistryCall RunId Stat) (s : QueryStats ι RunId Stat) : Prop where
  /-- A run is in one place. -/
  somewhere : ∀ run, s.active run ≠ none ∨ s.taken run ≠ none ∨ recorded s.history run ≠ none
  taken : ∀ run, s.taken run ≠ none → s.active run = none ∧ recorded s.history run = none
  history : ∀ run, recorded s.history run ≠ none → s.active run = none
  completing : ∀ j run, call j = .complete run → (s.taken run ≠ none ↔ s.calls j = .removed)
  completed : ∀ j run, call j = .complete run → s.calls j ≠ .start → s.active run = none
  missed : ∀ i run stat, call i = .attachPushdown run stat → s.calls i = .missed → s.active run = none
  attached : ∀ i run stat, call i = .attachPushdown run stat → s.calls i = .returned →
    truncate stat ∈ (s.active run).getD [] ++ (s.taken run).getD [] ++ (recorded s.history run).getD []

theorem kept_step (hone : ∀ i j run, call i = .complete run → call j = .complete run → i = j)
    (h : Kept truncate call s) (hc : WithinCaps call s i) (htimely : Timely call s i)
    (hstep : step truncate call s i = some s') : Kept truncate call s' := by
  obtain ⟨hs, ht, hhistory, hcompleting, hcompleted, hmissed, hattached⟩ := h
  have hfound : ∀ run, s.active run = none → s.taken run = none → ∃ l, recorded s.history run = some l := by
    intro run ha ht
    exact Option.ne_none_iff_exists'.mp (((hs run).resolve_left (absurd ha)).resolve_left (absurd ht))
  unfold step at hstep
  unfold WithinCaps at hc
  repeat' split at hstep
  all_goals cases hstep
  all_goals simp only [*] at hc
  all_goals constructor
  all_goals grind [Timely, recorded_amend, recorded_pushBack, pushStat, Function.update_apply]

theorem kept_run (ho : ∀ i j run, call i = .complete run → call j = .complete run → i = j) :
    ∀ {is s s'}, Kept truncate call s →
      Along (step truncate call) (fun s i _ => WithinCaps call s i ∧ Timely call s i) s is →
      run (step truncate call) s is = some s' → Kept truncate call s'
  | [], _, _, h, _, hru => Option.some.inj hru ▸ h
  | i :: is, s, s', h, ha, hru => by
    obtain ⟨s₁, hstep, hr⟩ := Option.bind_eq_some_iff.mp hru
    obtain ⟨⟨hc, ht⟩, ha'⟩ := ha s₁ hstep
    exact kept_run ho (kept_step ho h hc ht hstep) ha' hr

theorem owned_run {is} (hr : run (step truncate call) initial is = some s') : Owned truncate call s' := by
  have hi : Owned truncate call initial := by constructor <;> simp [initial]
  have ha : Along (step truncate call) (fun _ _ s' => Owned truncate call s') initial is :=
    along_of_inv (Owned truncate call) (fun s i s' h hstep => ⟨owned_step h hstep, owned_step h hstep⟩) is hi
  exact ha.at_end hi hr

omit [DecidableEq ι] in
theorem kept_initial : Kept truncate call (initial : QueryStats ι RunId Stat) := by
  constructor <;> simp [initial, recorded]

variable (truncate call) in
/-- No statistic gets to another run. Where no statistic looks for its run in the history while `complete` has it in
its hands, every statistic is in the record of its run once both calls have returned. -/
theorem pushdowns_recorded (hone : ∀ i j run, call i = .complete run → call j = .complete run → i = j) (is : List ι)
    (s' : QueryStats ι RunId Stat) (hrun : run (step truncate call) initial is = some s') :
    Owned truncate call s' ∧
    (Along (step truncate call) (fun s i _ => WithinCaps call s i ∧ Timely call s i) initial is →
      ∀ i j run stat, call i = .attachPushdown run stat → call j = .complete run →
        s'.calls i = .returned → s'.calls j = .returned →
        ∃ l, recorded s'.history run = some l ∧ truncate stat ∈ l) := by
  refine ⟨owned_run hrun, fun hal i j run stat hi hj ha hc => ?_⟩
  have h := kept_run hone kept_initial hal hrun
  have hac : s'.active run = none := h.completed j run hj (by simp [hc])
  have ht : s'.taken run = none := by
    by_contra ht
    simp [(h.completing j run hj).mp ht] at hc
  have hm := h.attached i run stat hi ha
  rw [hac, ht] at hm
  cases hl : recorded s'.history run with
  | none => simp [hl] at hm
  | some l => exact ⟨l, rfl, by simpa [hl] using hm⟩

/-- A statistic for a run, and the `complete` of the run. -/
def attachAndComplete : Bool → RegistryCall Unit Nat
  | false => .attachPushdown () 7
  | true => .complete ()

theorem pushdowns_recorded_late : ∃ s', run (step id attachAndComplete) initial [false, true, true] = some s' ∧
    ∃ l, recorded s'.history () = some l ∧ 7 ∈ l := by
  refine ⟨_, rfl, ?_⟩
  refine (pushdowns_recorded id attachAndComplete ?_ [false, true, true] _ rfl).2 ?_ false true () 7 rfl rfl rfl rfl
  · simp [attachAndComplete]
  · simp [Along, WithinCaps, Timely, step, initial, attachAndComplete, maxPushdownsPerQuery, historyCap]

/-- The statistic finds the run neither active nor in the history. -/
theorem pushdown_dropped : ∃ s', run (step id attachAndComplete) initial [true, false, false, true] = some s' ∧
    Along (step id attachAndComplete) (fun s i _ => WithinCaps attachAndComplete s i) initial [true, false, false, true] ∧
    s'.calls false = .returned ∧ s'.calls true = .returned ∧ recorded s'.history () = some [] := by
  refine ⟨_, rfl, ?_, rfl, rfl, rfl⟩
  simp [Along, WithinCaps, step, initial, attachAndComplete, recorded, amend, historyCap]

end QueryStats
end Dataglot
