/-
The cache of catalog providers (`CatalogProviderCache` in `cache.rs`), with any number of
calls going on at once.

A `get` probes the warm map, takes the in-flight cell of the key, runs the builder in the
cell or waits for who does, inserts what came of it into the warm map and removes the cell:
steps on two maps, between which other calls take theirs. So a `get` that has missed the
warm map may come for the cell after it is gone, and builds again; and a build that an
eviction finds under way is inserted after it.
-/
import Dataglot.Library.Runs
import Dataglot.Catalog.EmbeddedStore

namespace Dataglot
open Function

/-- A `tokio::sync::OnceCell`. One call at a time runs the initializer, and leaves nothing when it fails. -/
inductive OnceCell (ι : Type)
  | empty
  | initializing (i : ι)
  | set (provider : Nat)
  deriving DecidableEq

namespace CatalogProviderCache

inductive Call
  | get (name : String)
  | evict (name : String)

/-- What the invalidation task does with a change. -/
def applyChange (change : BindingChange) : Call :=
  match change.kind with
  | .upserted | .deleted => .evict change.name

def Call.Invalidates (name : String) (c : Call) : Prop :=
  c = .evict name ∨ ∃ change : BindingChange, change.name = name ∧ c = applyChange change

inductive At
  | start
  /-- The key is not in the warm map. -/
  | missed
  | holds (cell : Nat)
  | builds (cell build : Nat)
  | got (provider : Nat)
  /-- The provider is in the warm map. -/
  | inserted (provider : Nat)
  /-- An eviction has removed the key from the warm map. -/
  | removed
  | returned (result : Option Nat)
  deriving DecidableEq

end CatalogProviderCache

open CatalogProviderCache

/-- The cache and the calls. A provider is known by the number of the build that made it. -/
structure CatalogProviderCache (ι : Type) where
  inner : String → Option Nat
  inFlight : String → Option Nat
  cells : Nat → OnceCell ι
  /-- How many cells there have been. -/
  created : Nat
  /-- How many builds have started. -/
  started : Nat
  calls : ι → At

namespace CatalogProviderCache

def new (ι : Type) : CatalogProviderCache ι := ⟨fun _ => none, fun _ => none, fun _ => .empty, 0, 0, fun _ => .start⟩

variable {ι : Type} [DecidableEq ι]

def goto (s : CatalogProviderCache ι) (i : ι) (a : At) : CatalogProviderCache ι :=
  { s with calls := Function.update s.calls i a }

/-- The next step of a call; `ok` is whether a build succeeds. -/
def step (call : ι → Call) (s : CatalogProviderCache ι) : ι × Bool → Option (CatalogProviderCache ι)
  | (i, ok) =>
    match call i, s.calls i with
    | .get name, .start =>
      match s.inner name with
      | some provider => some (s.goto i (.returned (some provider)))
      | none => some (s.goto i .missed)
    | .get name, .missed =>
      match s.inFlight name with
      | some cell => some (s.goto i (.holds cell))
      | none => some ({ s with
          inFlight := Function.update s.inFlight name (some s.created)
          created := s.created + 1 }.goto i (.holds s.created))
    | .get _, .holds cell =>
      match s.cells cell with
      | .set provider => some (s.goto i (.got provider))
      | .initializing _ => none
      | .empty => some ({ s with
          cells := Function.update s.cells cell (.initializing i)
          started := s.started + 1 }.goto i (.builds cell s.started))
    | .get _, .builds cell build =>
      if ok then some ({ s with cells := Function.update s.cells cell (.set build) }.goto i (.got build))
      else some ({ s with cells := Function.update s.cells cell .empty }.goto i (.returned none))
    | .get name, .got provider =>
      some ({ s with inner := Function.update s.inner name (some provider) }.goto i (.inserted provider))
    | .get name, .inserted provider =>
      some ({ s with inFlight := Function.update s.inFlight name none }.goto i (.returned (some provider)))
    | .evict name, .start => some ({ s with inner := Function.update s.inner name none }.goto i .removed)
    | .evict name, .removed =>
      some ({ s with inFlight := Function.update s.inFlight name none }.goto i (.returned none))
    | _, _ => none

/-! ## After an eviction -/

section Evict

variable (call : ι → Call) (name : String) (bound : Nat) (s : CatalogProviderCache ι)

/-- A cell is in flight under one key, and those who have it are `get`s of that key. -/
structure Cells : Prop where
  created : ∀ n cell, s.inFlight n = some cell → cell < s.created
  held : ∀ i cell, s.calls i = .holds cell → cell < s.created
  building : ∀ i cell p, s.calls i = .builds cell p → cell < s.created
  fresh : ∀ cell, s.created ≤ cell → s.cells cell = .empty
  apart : ∀ n n' cell, s.inFlight n = some cell → s.inFlight n' = some cell → n = n'
  holder : ∀ i cell n, s.calls i = .holds cell → s.inFlight n = some cell → call i = .get n
  builder : ∀ i cell p n, s.calls i = .builds cell p → s.inFlight n = some cell → call i = .get n
  filler : ∀ n cell p, s.inFlight n = some cell → s.cells cell = .set p →
    ∃ i q, call i = .get n ∧ (s.calls i = .got q ∨ s.calls i = .inserted q)

/-- A `get` of the key has the cell, or who asks for the key next will have it. -/
def Concerns (cell : Nat) : Prop := s.inFlight name = some cell ∨ ∃ i, call i = .get name ∧ s.calls i = .holds cell

/-- The warm map and what a `get` of the key may still insert are of no build before `bound`. -/
structure Since : Prop where
  warm : ∀ p, s.inner name = some p → bound ≤ p
  builds : ∀ i cell p, call i = .get name → s.calls i = .builds cell p → bound ≤ p
  got : ∀ i p, call i = .get name → s.calls i = .got p → bound ≤ p
  filled : ∀ cell p, Concerns call name s cell → s.cells cell = .set p → bound ≤ p
  filling : ∀ cell i p, Concerns call name s cell → s.calls i = .builds cell p → bound ≤ p

def Yields (j : ι) : Prop := ∀ p, s.calls j = .inserted p ∨ s.calls j = .returned (some p) → bound ≤ p

/-- No `get` of the key is on the way with a cell or a provider. -/
def Idle : Prop :=
  ∀ i, call i = .get name → s.calls i = .start ∨ s.calls i = .missed ∨ ∃ r, s.calls i = .returned r

variable {call name bound s} {s' : CatalogProviderCache ι} {e : ι × Bool}

theorem Cells.step (h : Cells call s) (hstep : step call s e = some s') : Cells call s' := by
  obtain ⟨i, ok⟩ := e
  simp only [step, goto] at hstep
  repeat' split at hstep
  all_goals cases hstep
  all_goals constructor
  all_goals grind [Cells, update_apply]

theorem started_le (hstep : step call s e = some s') : s.started ≤ s'.started := by
  obtain ⟨i, ok⟩ := e
  simp only [step, goto] at hstep
  repeat' split at hstep
  all_goals cases hstep
  all_goals simp

theorem Since.step (h : Since call name bound s) (hcells : Cells call s) (hbound : bound ≤ s.started)
    (hstep : step call s e = some s') : Since call name bound s' := by
  obtain ⟨i, ok⟩ := e
  simp only [step, goto] at hstep
  repeat' split at hstep
  all_goals cases hstep
  all_goals constructor
  all_goals grind [Since, Cells, Concerns, update_apply]

theorem Yields.step {j} (h : Yields bound s j) (hcall : call j = .get name) (hsince : Since call name bound s)
    (hstep : step call s e = some s') : Yields bound s' j := by
  obtain ⟨i, ok⟩ := e
  simp only [step, goto] at hstep
  repeat' split at hstep
  all_goals cases hstep
  all_goals grind [Yields, Since, update_apply]

theorem Call.Invalidates.eq_evict {c : Call} (h : c.Invalidates name) : c = .evict name := by
  obtain rfl | ⟨⟨org, _, kind⟩, rfl, rfl⟩ := h
  · rfl
  · cases kind <;> rfl

theorem since_evict {i ok} (hcells : Cells call s) (hidle : Idle call name s)
    (hi : (call i).Invalidates name) (hb : s.calls i = .start) (hstep : step call s (i, ok) = some s') :
    Since call name s.started s' := by
  simp only [step, goto, hi.eq_evict, hb, Option.some.injEq] at hstep
  cases hstep
  constructor
  all_goals grind [Cells, Idle, Concerns, update_apply]

theorem cells_run : ∀ {es s s'}, Cells call s → Runs.run (step call) s es = some s' → Cells call s'
  | [], _, _, h, hru => by
    cases hru
    exact h
  | e :: es, s, s', h, hru => by
    obtain ⟨t, hstep, hr⟩ := Option.bind_eq_some_iff.mp hru
    exact cells_run (h.step hstep) hr

theorem yields_run {j} (hca : call j = .get name) : ∀ {es s s'},
    Cells call s → bound ≤ s.started → Since call name bound s → Yields bound s j →
    Runs.run (step call) s es = some s' → Yields bound s' j
  | [], _, _, _, _, _, h, hru => by
    cases hru
    exact h
  | e :: es, s, s', hc, hb, hs, h, hru => by
    obtain ⟨t, hstep, hr⟩ := Option.bind_eq_some_iff.mp hru
    exact yields_run hca (hc.step hstep) (hb.trans (started_le hstep)) (hs.step hc hb hstep)
      (h.step hca hs hstep) hr

/-- If no `get` of the key is on the way when an eviction begins, then whoever asks for the key later, in particular
when the eviction has returned, is given a provider of a later build. -/
theorem evicted_for_good {i j : ι} {es es' : List (ι × Bool)} {s₁ s₂ s₃ : CatalogProviderCache ι} {ok : Bool} {p : Nat}
    (hinvalidates : (call i).Invalidates name) (hget : call j = .get name)
    (hbefore : Runs.run (step call) (new ι) es = some s₁) (hidle : Idle call name s₁) (hbegin : s₁.calls i = .start)
    (hevicts : step call s₁ (i, ok) = some s₂) (hasks : s₂.calls j = .start)
    (hafter : Runs.run (step call) s₂ es' = some s₃) (hp : s₃.calls j = .returned (some p)) : s₁.started ≤ p := by
  have hn : Cells call (new ι) := by
    constructor <;> simp [new]
  have hc := cells_run hn hbefore
  refine yields_run hget (hc.step hevicts) (started_le hevicts) (since_evict hc hidle hinvalidates hbegin hevicts)
    ?_ hafter p (.inr hp)
  intro q hq
  simp [hasks] at hq

end Evict

def after (call : ι → Call) (s : CatalogProviderCache ι) (es : List ι) : CatalogProviderCache ι :=
  (Runs.run (step call) s (es.map fun i => (i, true))).getD s

/-- The binding changes between two `get`s. -/
theorem evicted_for_good_run :
    let call (i : Fin 3) : Call := if i = 1 then applyChange ⟨"acme", "sales", .upserted⟩ else .get "sales"
    let s₁ := after call (new (Fin 3)) (List.replicate 6 0)
    let s₂ := after call s₁ [1]
    let s₃ := after call s₂ (1 :: List.replicate 6 2)
    Idle call "sales" s₁ ∧ s₃.calls 1 = .returned none ∧ s₃.calls 2 = .returned (some 1) ∧ s₁.started ≤ 1 := by
  intro call s₁ s₂ s₃
  have hc : (call 1).Invalidates "sales" := .inr ⟨⟨"acme", "sales", .upserted⟩, rfl, rfl⟩
  have hid : Idle call "sales" s₁ := fun i hi => match i, hi with
    | 0, _ => .inr (.inr ⟨_, rfl⟩)
    | 2, _ => .inl rfl
  have hb : Runs.run (step call) (new (Fin 3)) (List.replicate 6 (0, true)) = some s₁ := rfl
  have he : step call s₁ (1, true) = some s₂ := rfl
  have ha : Runs.run (step call) s₂ ((1, true) :: List.replicate 6 (2, true)) = some s₃ := rfl
  have hp : s₃.calls 2 = .returned (some 1) := rfl
  exact ⟨hid, rfl, hp, evicted_for_good hc rfl hb hid rfl he rfl ha hp⟩

/-- A build is under way when the key is evicted, and inserts its provider then. The `get` that starts after the eviction
has returned is given it. -/
theorem eviction_undone :
    let call (i : Fin 3) : Call := if i = 1 then .evict "sales" else .get "sales"
    let s₁ := after call (new (Fin 3)) [0, 0, 0]
    let s₂ := after call s₁ [1, 1]
    let s₃ := after call s₂ [0, 0, 0, 2]
    s₁.started = 1 ∧ s₁.calls 1 = .start ∧ s₂.calls 1 = .returned none ∧ s₂.calls 2 = .start ∧
      s₃.calls 2 = .returned (some 0) := by
  decide +kernel

/-! ## Whose provider a `get` is given -/

section Owner

variable (call : ι → Call)

/-- The call that starts a build in the run. -/
def startedBy : CatalogProviderCache ι → List (ι × Bool) → Nat → Option Call
  | _, [], _ => none
  | s, e :: es, b => (step call s e).bind fun s' =>
    if b = s.started ∧ s'.started ≠ b then some (call e.1) else startedBy s' es b

/-- What is there under a key, or with a `get`, has been built for that key. -/
structure Owned (owner : Nat → Option Call) (s : CatalogProviderCache ι) : Prop where
  warm : ∀ n p, s.inner n = some p → owner p = some (.get n)
  flying : ∀ n cell p, s.inFlight n = some cell → s.cells cell = .set p → owner p = some (.get n)
  held : ∀ i cell p, s.calls i = .holds cell → s.cells cell = .set p → owner p = some (call i)
  shared : ∀ i j cell, s.calls i = .holds cell → s.calls j = .holds cell → call i = call j
  building : ∀ i j cell b, s.calls i = .holds cell → s.calls j = .builds cell b → call i = call j
  builds : ∀ i cell b, s.calls i = .builds cell b → owner b = some (call i)
  got : ∀ i p, s.calls i = .got p ∨ s.calls i = .inserted p ∨ s.calls i = .returned (some p) → owner p = some (call i)

variable {call} {owner : Nat → Option Call} {s s' : CatalogProviderCache ι} {e : ι × Bool}

theorem owned_step (h : Owned call owner s) (hc : Cells call s)
    (hown : s'.started ≠ s.started → owner s.started = some (call e.1)) (hstep : step call s e = some s') :
    Owned call owner s' := by
  obtain ⟨i, ok⟩ := e
  simp only [step, goto] at hstep
  repeat' split at hstep
  all_goals cases hstep
  all_goals constructor
  all_goals grind [Owned, Cells, update_apply]

theorem owned_run {es} (h : Owned call owner s) (hc : Cells call s)
    (hown : ∀ b, s.started ≤ b → owner b = startedBy call s es b) :
    Runs.Along (step call) (fun _ _ t => Owned call owner t) s es := by
  induction es generalizing s with
  | nil => trivial
  | cons e es ih =>
    intro s' hstep
    simp only [startedBy, hstep, Option.bind_some] at hown
    have hle : s.started ≤ s'.started := started_le hstep
    have h' : Owned call owner s' := by
      refine owned_step h hc (fun hne => ?_) hstep
      rw [hown _ le_rfl, if_pos ⟨rfl, hne⟩]
    refine ⟨h', ih h' (hc.step hstep) fun b hb => ?_⟩
    -- A build that starts with this step is not among those that start later.
    rw [hown b (hle.trans hb), if_neg]
    rintro ⟨rfl, hne⟩
    exact hne (hb.antisymm hle)

/-- Whatever the calls and the order of their steps, with failing builds and evictions between them: the warm map has
under a key only what a `get` of this key has built, and a `get` is given nothing that was built for another key. -/
theorem built_for_its_key (call : ι → Call) (es : List (ι × Bool)) :
    Runs.Along (step call) (fun _ _ s =>
      (∀ n p, s.inner n = some p → startedBy call (new ι) es p = some (.get n)) ∧
        ∀ i p, s.calls i = .returned (some p) → startedBy call (new ι) es p = some (call i)) (new ι) es := by
  have hc : Cells call (new ι) := by constructor <;> simp [new]
  have h : Owned call (startedBy call (new ι) es) (new ι) := by constructor <;> simp [new]
  refine (owned_run h hc fun _ _ => rfl).mp (Runs.along_of_inv (fun _ => True) ?_ es trivial)
  intro _ _ s _ _
  exact ⟨trivial, fun hs => ⟨hs.warm, fun i p hi => hs.got i p (.inr (.inr hi))⟩⟩

end Owner

/-! ## Many `get`s of a cold key -/

section Cold

variable (name : String) (s₀ s : CatalogProviderCache ι)

/-- The key is not cached, and the calls are about to start. -/
structure Cold : Prop where
  inner : s.inner name = none
  inFlight : s.inFlight name = none
  fresh : s.cells s.created = .empty
  calls : ∀ i, s.calls i = .start

/-- A `get` that has missed the warm map comes for the cell after it has been removed. -/
def ComesLate (i : ι) : Prop := s.calls i = .missed ∧ s.inFlight name = none ∧ s₀.created < s.created

/-- All go through one cell and one build. -/
structure Once : Prop where
  created : s.created = s₀.created ∨ s.created = s₀.created + 1
  inFlight : ∀ c, s.inFlight name = some c → c = s₀.created ∧ s.created = s₀.created + 1
  unbuilt : s.cells s₀.created = .empty → s.started = s₀.started
  built : s.cells s₀.created ≠ .empty → s.started = s₀.started + 1
  set : ∀ p, s.cells s₀.created = .set p → p = s₀.started
  warm : ∀ p, s.inner name = some p → s.cells s₀.created = .set p
  held : ∀ i c, s.calls i = .holds c → c = s₀.created ∧ s.created = s₀.created + 1
  building : ∀ i c b, s.calls i = .builds c b → c = s₀.created ∧ b = s₀.started ∧ s.cells c = .initializing i
  builder : ∀ i, s.cells s₀.created = .initializing i → s.calls i = .builds s₀.created s₀.started
  got : ∀ i p, s.calls i = .got p ∨ s.calls i = .inserted p → s.cells s₀.created = .set p
  returned : ∀ i r, s.calls i = .returned r → ∃ p, r = some p ∧ s.cells s₀.created = .set p
  get : ∀ i, s.calls i ≠ .removed

variable {name s₀ s} {s' : CatalogProviderCache ι} {call : ι → Call} {e : ι × Bool}

omit [DecidableEq ι] in
theorem Cold.once (h : Cold name s) : Once name s s := by
  constructor <;> grind [Cold]

theorem once_step (h : Once name s₀ s) (hc : ∀ i, call i = .get name) (hok : e.2 = true)
    (hlate : ¬ ComesLate name s₀ s e.1) (hstep : step call s e = some s') : Once name s₀ s' := by
  obtain ⟨i, ok⟩ := e
  simp only [step, goto, hc] at hstep
  repeat' split at hstep
  all_goals cases hstep
  all_goals constructor
  all_goals grind [Once, ComesLate, update_apply]

theorem once_run (hc : ∀ i, call i = .get name) : ∀ {es s},
    Once name s₀ s → (∀ e ∈ es, e.2 = true) → Runs.Along (step call) (fun t e _ => ¬ ComesLate name s₀ t e.1) s es →
    Runs.run (step call) s es = some s' → Once name s₀ s'
  | [], _, h, _, _, hru => by
    cases hru
    exact h
  | e :: es, s, h, hok, hlate, hru => by
    obtain ⟨t, hstep, hr⟩ := Option.bind_eq_some_iff.mp hru
    obtain ⟨hn, hlate⟩ := hlate t hstep
    have hf : Once name s₀ t := once_step h hc (hok e List.mem_cons_self) hn hstep
    exact once_run hc hf (fun e he => hok e (List.mem_cons_of_mem _ he)) hlate hr

theorem once_goes_on (h : Once name s₀ s) (hca : ∀ i, call i = .get name) (i) :
    (∃ r, s.calls i = .returned r) ∨ (step call s (i, true)).isSome = true ∨
      ∃ j, s.calls j = .builds s₀.created s₀.started := by
  cases hi : s.calls i with
  | returned r => exact .inl ⟨r, rfl⟩
  | removed => exact absurd hi (h.get i)
  | holds c =>
    cases hc : s.cells c with
    | initializing j => exact .inr (.inr ⟨j, h.builder j ((h.held i c hi).1 ▸ hc)⟩)
    | empty | set => exact .inr (.inl (by simp [step, hca, hi, hc]))
  | start | missed =>
    refine .inr (.inl ?_)
    simp only [step, hca, hi]
    split <;> rfl
  | builds | got | inserted => exact .inr (.inl (by simp [step, hca, hi]))

/-- Many `get`s of a cold key, without evictions and failures. If none of them comes for the cell after it has been
removed, the builder runs once, and whoever returns has the provider that it built; who has not returned can go on or
waits for the one build. -/
theorem built_once (hcall : ∀ i, call i = .get name) (hcold : Cold name s₀) {es : List (ι × Bool)}
    (hok : ∀ e ∈ es, e.2 = true) (hlate : Runs.Along (step call) (fun t e _ => ¬ ComesLate name s₀ t e.1) s₀ es)
    (hrun : Runs.run (step call) s₀ es = some s) :
    s.started ≤ s₀.started + 1 ∧
      (∀ i r, s.calls i = .returned r → r = some s₀.started ∧ s.started = s₀.started + 1) ∧
      ∀ i, (∃ r, s.calls i = .returned r) ∨ (step call s (i, true)).isSome = true ∨
        ∃ j, s.calls j = .builds s₀.created s₀.started := by
  have h : Once name s₀ s := once_run hcall hcold.once hok hlate hrun
  refine ⟨?_, fun i r hr => ?_, once_goes_on h hcall⟩
  · by_cases he : s.cells s₀.created = .empty
    · rw [h.unbuilt he]
      exact Nat.le_succ _
    · rw [h.built he]
  · obtain ⟨p, rfl, hs⟩ := h.returned i r hr
    exact ⟨congrArg some (h.set p hs), h.built (by simp [hs])⟩

end Cold

/-- Two `get`s, the second of which comes for the cell while the first one builds. -/
theorem built_once_run :
    let call (_ : Bool) : Call := .get "sales"
    let es := [(true, true), (false, true), (true, true), (true, true), (false, true), (true, true), (false, true)]
    ∃ s, Runs.run (step call) (new Bool) es = some s ∧ s.calls false = .got 0 ∧ s.started ≤ 1 := by
  intro call es
  have hc : Cold "sales" (new Bool) := ⟨rfl, rfl, rfl, fun _ => rfl⟩
  have hlate : Runs.Along (step call) (fun t e _ => ¬ ComesLate "sales" (new Bool) t e.1) (new Bool) es := by
    repeat (rintro _ ⟨⟩; refine ⟨by unfold ComesLate; decide, ?_⟩)
    trivial
  have hr : Runs.run (step call) (new Bool) es = some _ := rfl
  exact ⟨_, hr, rfl, (built_once (fun _ => rfl) hc (by decide) hlate hr).1⟩

/-- A `get` misses the warm map; another one builds, inserts and removes the cell; the first one builds again. -/
theorem built_twice :
    let s := after (fun _ : Bool => .get "sales") (new Bool)
      [true, false, false, false, false, false, false, true, true, true, true, true]
    s.started = 2 ∧ s.calls false = .returned (some 0) ∧ s.calls true = .returned (some 1) := by
  decide +kernel

end CatalogProviderCache

end Dataglot
