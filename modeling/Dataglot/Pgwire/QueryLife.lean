/-
What the observers see of a query (`handler.rs`, `query_registry.rs`): its start, and its
completion. Most exits of `do_query` report the completion before they return; the observed
execution leaves it to `QueryCompletion`, which the row streams own together.

Whoever drives the handler may drop its future wherever it waits, and afterwards reads the
streams in any order and drops them when it likes.
-/
import Dataglot.Library.Runs
import Dataglot.Pgwire.IdentifierGuard

namespace Dataglot
open Runs Option

/-- What the future of `do_query` waits for. -/
inductive Await
  /-- A statement of a bundle, with `left` more after it. -/
  | statement (left streams : Nat)
  | apply
  | copyOut
  | plan
  | execution
  | bypass
  deriving DecidableEq

inductive Stage
  | awaiting (a : Await)
  | returned
  | dropped
  deriving DecidableEq

inductive Seen
  | start
  | complete (error : Bool)
  | returns (ok : Bool)
  | item (stream : Nat) (error : Bool)
  | over (stream : Nat)
  deriving DecidableEq

def Seen.isComplete : Seen → Bool
  | .complete _ => true
  | _ => false

structure QueryLife where
  stage : Stage
  /-- The returned streams that are neither drained nor dropped. -/
  streams : List Nat
  /-- The error flag of `QueryCompletion`, as long as a stream owns it. -/
  completion : Option Bool
  seen : List Seen
  deriving DecidableEq

inductive Happening
  /-- The future that is waited for ends, with an error or with responses: a row stream or another. -/
  | ready (result : Option (List Bool))
  | dropFuture
  | item (stream : Nat) (error : Bool)
  | over (stream : Nat)

namespace QueryLife

def started (a : Await) : QueryLife := ⟨.awaiting a, [], none, [.start]⟩

variable (l : QueryLife)

/-- The handler reports the completion and returns. -/
def complete (error ok : Bool) (streams : Nat) : QueryLife :=
  ⟨.returned, List.range streams, none, l.seen ++ [.complete error, .returns ok]⟩

/-- `attach_completion` and the drop after it: without a row stream, the handler is the last owner. -/
def attachCompletion (streams : Nat) : QueryLife :=
  if streams = 0 then l.complete false true 0
  else ⟨.returned, List.range streams, some false, l.seen ++ [.returns true]⟩

def ready : Await → Option (List Bool) → QueryLife
  | .plan, _ => { l with stage := .awaiting .execution }
  | .statement (left + 1) streams, some responses =>
    { l with stage := .awaiting (.statement left (streams + responses.count true)) }
  | .statement 0 streams, some responses => l.complete false true (streams + responses.count true)
  | .apply, some _ => l.complete false true 0
  | .copyOut, some _ => l.complete false true 1
  | .execution, some responses => l.attachCompletion (responses.count true)
  | .bypass, some responses =>
    -- the outcome is read off before the responses are counted
    if responses.length = 1 then l.complete false true (responses.count true)
    else l.complete responses.isEmpty false 0
  | _, none => l.complete true false 0

/-- A stream ends or is dropped, and with it its share of the completion. -/
def release (stream : Nat) : QueryLife :=
  match l.streams.erase stream, l.completion with
  | [], some error => ⟨l.stage, [], none, l.seen ++ [.over stream, .complete error]⟩
  | streams, completion => ⟨l.stage, streams, completion, l.seen ++ [.over stream]⟩

def step : Happening → Option QueryLife
  | .ready result =>
    match l.stage with
    | .awaiting a => some (l.ready a result)
    | .returned | .dropped => none
  | .dropFuture =>
    match l.stage with
    | .awaiting _ => some { l with stage := .dropped }
    | .returned | .dropped => none
  | .item stream error =>
    if stream ∈ l.streams then
      -- `completion_aware_rows` flags an error item
      some { l with completion := l.completion.map (· || error), seen := l.seen ++ [.item stream error] }
    else none
  | .over stream => if stream ∈ l.streams then some (l.release stream) else none

/-- Nothing of the message is left: its future is gone, and so are its streams. -/
def Gone : Prop := (∀ a, l.stage ≠ .awaiting a) ∧ l.streams = []

/-- `QueryRegistry::start` and `QueryRegistry::complete`, as far as the run ids of the live queries go. -/
def track {RunId : Type} [DecidableEq RunId] (runId : RunId) (live : Finset RunId) : Seen → Finset RunId
  | .start => insert runId live
  | .complete _ => live.erase runId
  | _ => live

/-- The responses that come hold no stream that is returned without a share of the completion, and are one
response where the bypass expects one. -/
def streamless : Happening → Bool
  | .ready (some responses) =>
    match l.stage with
    | .awaiting (.statement _ streams) => streams + responses.count true = 0
    | .awaiting .copyOut => false
    | .awaiting .bypass => responses.length ≤ 1 ∧ responses.count true = 0
    | _ => true
  | _ => true

/-- What can become of a query in one step. -/
inductive Change (l : QueryLife) (e : Happening) : QueryLife → Prop
  | waits {a : Await} (h : l.stage = .awaiting a) (b : Await) : Change l e { l with stage := .awaiting b }
  | drops {a : Await} (h : l.stage = .awaiting a) : Change l e { l with stage := .dropped }
  | completes {a : Await} (h : l.stage = .awaiting a) (error ok : Bool) (streams : Nat)
      (hlate : l.streamless e = true → streams = 0 ∧ error = !ok) : Change l e (l.complete error ok streams)
  | shares {a : Await} (h : l.stage = .awaiting a) {streams : Nat} (hpos : streams ≠ 0) :
      Change l e ⟨.returned, List.range streams, some false, l.seen ++ [.returns true]⟩
  | item {stream : Nat} (h : stream ∈ l.streams) (error : Bool) :
      Change l e { l with completion := l.completion.map (· || error), seen := l.seen ++ [.item stream error] }
  | over {stream : Nat} (h : stream ∈ l.streams) (hlast : l.streams.erase stream = [] → l.completion = none) :
      Change l e ⟨l.stage, l.streams.erase stream, l.completion, l.seen ++ [.over stream]⟩
  | last {stream : Nat} (h : stream ∈ l.streams) {error : Bool} (herror : l.completion = some error) :
      Change l e ⟨l.stage, [], none, l.seen ++ [.over stream, .complete error]⟩

variable {l l' : QueryLife} {e : Happening}

theorem change_ready {a} (h : l.stage = .awaiting a) (result) :
    Change l (.ready result) (l.ready a result) := by
  cases result with
  | none =>
    cases a with
    | plan => exact .waits h _
    | statement left => cases left <;> exact .completes h true false 0 fun _ => ⟨rfl, rfl⟩
    | _ => exact .completes h true false 0 fun _ => ⟨rfl, rfl⟩
  | some responses =>
    cases a with
    | plan => exact .waits h _
    | apply => exact .completes h false true 0 fun _ => ⟨rfl, rfl⟩
    | copyOut => exact .completes h false true 1 fun hlate => by simp [streamless, h] at hlate
    | statement left streams =>
      cases left with
      | succ left => exact .waits h _
      | zero =>
        refine .completes h false true _ fun hlate => ⟨?_, rfl⟩
        simpa [streamless, h] using hlate
    | execution =>
      rw [ready, attachCompletion]
      split_ifs with hz
      · exact .completes h false true 0 fun _ => ⟨rfl, rfl⟩
      · exact .shares h hz
    | bypass =>
      rw [ready]
      split_ifs with hone
      · refine .completes h false true _ fun hlate => ⟨?_, rfl⟩
        simp only [streamless, h, decide_eq_true_eq] at hlate
        exact hlate.2
      · refine .completes h _ false 0 fun hlate => ⟨rfl, ?_⟩
        simp only [streamless, h, decide_eq_true_eq] at hlate
        have hn : responses.length = 0 := by omega
        rw [List.length_eq_zero_iff.mp hn]
        rfl

theorem change_release {stream} (h : stream ∈ l.streams) : Change l e (l.release stream) := by
  unfold release
  split
  · exact .last h ‹_›
  · refine .over h fun hnil => ?_
    cases hc : l.completion with
    | none => rfl
    | some error => exact absurd hc (by simp_all)

theorem change_of_step (h : l.step e = some l') : Change l e l' := by
  cases e with
  | ready result =>
    simp only [step] at h
    split at h <;> cases h
    exact change_ready ‹_› result
  | dropFuture =>
    simp only [step] at h
    split at h <;> cases h
    exact .drops ‹_›
  | item stream error =>
    obtain ⟨hm, heq⟩ := ite_none_right_eq_some.mp h
    cases heq
    exact .item hm error
  | «over» stream =>
    obtain ⟨hm, heq⟩ := ite_none_right_eq_some.mp h
    cases heq
    exact change_release hm

/-! ## One completion for one start -/

section Paired

variable {RunId : Type} [DecidableEq RunId] (runId : RunId) (live : Finset RunId)

structure Paired (l : QueryLife) : Prop where
  waiting : l.stage ≠ .returned → l.seen = [.start] ∧ l.streams = [] ∧ l.completion = none
  owned : l.completion.isSome → l.streams ≠ []
  once : l.stage = .returned → l.seen.countP Seen.isComplete = if l.completion.isSome then 0 else 1
  listed : l.seen.foldl (track runId) live =
    if l.stage = .returned ∧ l.completion = none then live else insert runId live

variable {runId live}

theorem paired_step (hfresh : runId ∉ live) (h : Paired runId live l) (hstep : l.step e = some l') :
    Paired runId live l' := by
  obtain ⟨hwaiting, howned, honce, hlisted⟩ := h
  cases change_of_step hstep with
  | waits hs b =>
    constructor <;> grind
  | drops hs =>
    constructor <;> grind
  | completes hs error ok streams =>
    constructor <;> grind [complete, track, Seen.isComplete]
  | shares hs hpos =>
    constructor <;> grind [track, Seen.isComplete]
  | item hm error =>
    constructor <;> grind [track, Seen.isComplete, map_eq_none_iff]
  | «over» hm hlast =>
    constructor <;> grind [track, Seen.isComplete]
  | last hm herror =>
    constructor <;> grind [track, Seen.isComplete]

theorem paired_run (hf : runId ∉ live) {es} (h : Paired runId live l)
    (hr : run step l es = some l') : Paired runId live l' :=
  Along.at_end (along_of_inv (Paired runId live)
    (fun _ _ _ hs hstep => ⟨paired_step hf hs hstep, paired_step hf hs hstep⟩) es h) h hr

end Paired

/-! ## Completion after the data -/

structure Reported (l : QueryLife) : Prop where
  waiting : l.stage ≠ .returned → l.seen = [.start] ∧ l.streams = [] ∧ l.completion = none
  first : l.seen.head? = some .start
  owned : ∀ error, l.completion = some error → (∀ error, .complete error ∉ l.seen) ∧ .returns false ∉ l.seen ∧
    (error = true ↔ ∃ stream, .item stream true ∈ l.seen)
  unowned : l.completion = none → l.streams = []
  complete : ∀ error, .complete error ∈ l.seen → l.streams = [] ∧
    (error = true ↔ .returns false ∈ l.seen ∨ ∃ stream, .item stream true ∈ l.seen)

theorem reported_step (h : Reported l) (hlate : l.streamless e = true) (hstep : l.step e = some l') :
    Reported l' := by
  obtain ⟨hwaiting, hfirst, howned, hunowned, hcomplete⟩ := h
  cases change_of_step hstep with
  | waits hs b =>
    constructor <;> grind
  | drops hs =>
    constructor <;> grind
  | completes hs error ok streams hlate' =>
    constructor <;> grind [QueryLife.complete]
  | shares hs hpos =>
    constructor <;> grind
  | item hm error =>
    constructor <;> grind [map_eq_none_iff, map_eq_some_iff]
  | «over» hm hlast =>
    constructor <;> grind
  | last hm herror =>
    constructor <;> grind

theorem reported_run : ∀ {es l}, Reported l →
    Along step (fun l e _ => l.streamless e = true) l es → run step l es = some l' → Reported l'
  | [], _, h, _, hru => some.inj hru ▸ h
  | e :: es, l, h, hlate, hru => by
    obtain ⟨l₁, hstep, hr⟩ := bind_eq_some_iff.mp hru
    obtain ⟨hn, hlate'⟩ := hlate l₁ hstep
    exact reported_run (reported_step h hn hstep) hlate' hr

/-! ## The handlers -/

/-- A query that is completed before anything is waited for. -/
def atOnce (error : Bool) : QueryLife := ⟨.returned, [], none, [.start, .complete error, .returns !error]⟩

section Handler

variable {R : Type} (U : UnicodeTables) (E : Surroundings R) (principal : Option AuthPrincipal)
  (observers : List QueryObserver)

/-- `do_query` of the simple handler, until it first waits. A query that the guard rejects is not started. -/
def simple (query : Text) : Option QueryLife :=
  match exitOf U E principal query with
  | .bundle statements => some (started (.statement (statements.length - 1) 0))
  | .noop => some (atOnce false)
  | .denied => some (atOnce true)
  | .controlPlane _ => some (started .apply)
  | .copyOut _ => some (started .copyOut)
  | .query effective =>
    if (E.rejectDeepCompoundIdentifier effective).isSome then none
    else some (started (if observers.any QueryObserver.wantsPlan then .plan else .execution))

/-- `do_query` of the extended handler, until it first waits; `bypass` where it turns to the simple one. -/
def extended (bypass : Bool) : QueryLife := started (if bypass then .bypass else .execution)

variable {U E principal observers}

theorem simple_cases {query} (h : simple U E principal observers query = some l) :
    (∃ a, l = started a) ∨ ∃ error, l = atOnce error := by
  unfold simple at h
  repeat' split at h
  all_goals cases h
  all_goals first | exact .inl ⟨_, rfl⟩ | exact .inr ⟨_, rfl⟩

/-- Once nothing is left of a query that was started, its completion has been reported exactly once, and the
registry lists what it listed before, if and only if the future of `do_query` was not dropped while it waited. -/
theorem completed_once_iff {RunId : Type} [DecidableEq RunId] {runId : RunId} {live : Finset RunId}
    (hfresh : runId ∉ live) {query : Text} {es : List Happening} (hstart : simple U E principal observers query = some l)
    (hrun : run step l es = some l') (hgone : l'.Gone) :
    l'.seen.countP Seen.isComplete = 1 ∧ l'.seen.foldl (track runId) live = live ↔ l'.stage ≠ .dropped := by
  have hp : Paired runId live l := by
    obtain ⟨a, rfl⟩ | ⟨error, rfl⟩ := simple_cases hstart
    · constructor <;> simp [started, track]
    · constructor <;> simp [atOnce, track, Seen.isComplete, hfresh, List.countP_cons]
  have h := paired_run hfresh hp hrun
  constructor
  · intro hc hd
    have hse := (h.waiting (by simp [hd])).1
    simp [hse, Seen.isComplete] at hc
  · intro hd
    have hr : l'.stage = .returned := by
      cases hs : l'.stage with
      | awaiting a => exact absurd hs (hgone.1 a)
      | dropped => exact absurd hs hd
      | returned => rfl
    have hn : l'.completion = none := by
      rw [← Option.not_isSome_iff_eq_none]
      exact fun hso => h.owned hso hgone.2
    exact ⟨by simpa [hn] using h.once hr, by simpa [hr, hn] using h.listed⟩

/-- The one stream of a query is read and dropped. -/
theorem completed_once_select :
    let l : QueryLife := ⟨.returned, [], none, [.start, .returns true, .item 0 false, .over 0, .complete false]⟩
    run step (started .execution) [.ready (some [true]), .item 0 false, .over 0] = some l ∧
      l.seen.countP Seen.isComplete = 1 ∧ l.seen.foldl (track 7) {3} = ({3} : Finset Nat) := by
  intro l
  have hs : simple .ascii (.accepting Unit) none [] "SELECT 1".toList = some (started .execution) := by
    decide +kernel
  have hr : run step (started .execution) [.ready (some [true]), .item 0 false, .over 0] = some l := by decide
  have hg : l.Gone := ⟨fun _ => Stage.noConfusion, rfl⟩
  exact ⟨hr, (completed_once_iff (by decide) hs hr hg).mpr (by decide)⟩

/-- The client goes away while the inner handler plans the query. -/
theorem started_never_completed :
    let l : QueryLife := ⟨.dropped, [], none, [.start]⟩
    simple .ascii (.accepting Unit) none [] "SELECT 1".toList = some (started .execution) ∧
      run step (started .execution) [.dropFuture] = some l ∧ l.Gone ∧
      l.seen.countP Seen.isComplete = 0 ∧ l.seen.foldl (track 7) {3} = ({3, 7} : Finset Nat) := by
  intro l
  have hg : l.Gone := ⟨fun _ => Stage.noConfusion, rfl⟩
  exact ⟨by decide +kernel, rfl, hg, rfl, by decide⟩

/-- The start comes first, and the completion only when no returned stream is left, with an error if and only if
`do_query` failed or a stream had an error item: as long as all streams come from the observed execution, and the
bypass gets one response. -/
theorem completed_after_streams {query : Text} {es : List Happening}
    (hstart : simple U E principal observers query = some l ∨ ∃ bypass, extended bypass = l)
    (hlate : Along step (fun l e _ => l.streamless e = true) l es) (hrun : run step l es = some l') :
    l'.seen.head? = some .start ∧ ∀ error, .complete error ∈ l'.seen →
      l'.streams = [] ∧ (error = true ↔ .returns false ∈ l'.seen ∨ ∃ stream, .item stream true ∈ l'.seen) := by
  have hr : Reported l := by
    have hc : (∃ a, l = started a) ∨ ∃ error, l = atOnce error := by
      obtain h | ⟨bypass, rfl⟩ := hstart
      · exact simple_cases h
      · exact .inl ⟨_, rfl⟩
    obtain ⟨a, rfl⟩ | ⟨error, rfl⟩ := hc
    · constructor <;> simp [started]
    · constructor <;> simp [atOnce]
  have h := reported_run hr hlate hrun
  exact ⟨h.first, h.complete⟩

/-- The second of two streams fails. -/
theorem completed_after_two_streams :
    let l : QueryLife := ⟨.returned, [], none, [.start, .returns true, .over 0, .item 1 true, .over 1, .complete true]⟩
    run step (started .execution) [.ready (some [true, true]), .over 0, .item 1 true, .over 1] = some l ∧
      l.streams = [] := by
  intro l
  have hr : run step (started .execution) [.ready (some [true, true]), .over 0, .item 1 true, .over 1] = some l := by
    decide
  have hs : simple .ascii (.accepting Unit) none [] "SELECT 1; SELECT 2".toList = some (started .execution) := by
    decide +kernel
  have hlate : Along step (fun l e _ => l.streamless e = true) (started .execution)
      [.ready (some [true, true]), .over 0, .item 1 true, .over 1] :=
    fun _ _ => ⟨rfl, fun _ _ => ⟨rfl, fun _ _ => ⟨rfl, fun _ _ => ⟨rfl, trivial⟩⟩⟩⟩
  exact ⟨hr, ((completed_after_streams (.inl hs) hlate hr).2 true (by decide)).1⟩

/-- A `COPY` is a success before its stream fails; so is a bypass, also where it returns an error for the number
of its responses. -/
theorem completed_before_streams :
    simple .ascii (.accepting Unit) none [] "COPY (SELECT 1) TO STDOUT".toList = some (started .copyOut) ∧
      run step (started .copyOut) [.ready (some [true]), .item 0 true] =
        some ⟨.returned, [0], none, [.start, .complete false, .returns true, .item 0 true]⟩ ∧
      run step (extended true) [.ready (some [true]), .item 0 true] =
        some ⟨.returned, [0], none, [.start, .complete false, .returns true, .item 0 true]⟩ ∧
      run step (extended true) [.ready (some [true, true])] =
        some ⟨.returned, [], none, [.start, .complete false, .returns false]⟩ := by
  decide +kernel

end Handler

end QueryLife
end Dataglot
