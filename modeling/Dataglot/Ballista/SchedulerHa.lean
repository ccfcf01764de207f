/-
HA schedulers over one lease (`run_scheduler_ha`). A process claims the lease, spawns its
scheduler task and refreshes the lease at every tick. It aborts the task when a refresh
finds the lease lost, or fails when the last success is a lease duration ago.

Time passes between any two steps: a store operation, a reply or a tick may be late.
-/
import Dataglot.Ballista.LeaseExclusivity

namespace Dataglot
open ObjectStore
open Programs

/-- Where the lease is, how long it lasts and how often it is refreshed, in milliseconds. -/
structure SchedulerArgs where
  haStatePath : String
  haLeaseDuration : Nat
  haHeartbeatInterval : Nat

inductive HaPhase (ι : Type)
  | claiming (call : LeaseProgram ι (Except LeaseError (ClaimOutcome ι)))
  /-- until it claims again -/
  | sleeping (wake : Nat)
  /-- the lease is acquired, the cluster is being set up -/
  | starting (etag : ETag)
  /-- the scheduler task runs; the last success and the next tick -/
  | leading (etag : ETag) (lastSuccessfulHeartbeat tick : Nat)
  /-- the scheduler task runs, and a refresh is under way -/
  | refreshing (etag : ETag) (lastSuccessfulHeartbeat tick : Nat) (call : LeaseProgram ι (Except LeaseError ETag))
  | exited

/-- The scheduler task has been spawned and not been aborted. -/
def HaPhase.isRunning {ι : Type} : HaPhase ι → Bool
  | leading _ _ _ | refreshing _ _ _ _ => true
  | _ => false

/-- What a step meets: a fault of the store; a set-up that fails, or a task that has ended by itself. -/
structure HaChoice where
  fault : Option Fault
  fails : Bool

structure HaCluster (ι : Type) where
  store : LeaseStore ι ι
  phases : ι → HaPhase ι

inductive HaEvent (ι : Type)
  | step (i : ι) (choice : HaChoice)
  | wait (d : Nat)

section Process

variable {ι : Type} (args : SchedulerArgs)

def SchedulerArgs.lease (i : ι) : ObjectStoreLease ι := ⟨args.haStatePath, i, args.haLeaseDuration⟩

def afterClaim (clock : Nat) : Except LeaseError (ClaimOutcome ι) → HaPhase ι
  | .ok (.acquired etag _) => .starting etag
  | .ok (.heldByOther _) => .sleeping (clock + args.haHeartbeatInterval)
  | .error (.backend _) => .sleeping (clock + args.haHeartbeatInterval)
  | .error (.malformed _ _) => .exited
  | .error .leadershipLost => .sleeping (clock + args.haHeartbeatInterval)

/-- The pause after an abort, for the port to be released. -/
def abortPause : Nat := 500

def afterHeartbeat (clock : Nat) (etag : ETag) (lastSuccessfulHeartbeat tick : Nat) :
    Except LeaseError ETag → HaPhase ι
  | .ok newETag => .leading newETag clock tick
  | .error .leadershipLost => .sleeping (clock + abortPause)
  | .error (.backend _) =>
    if args.haLeaseDuration ≤ clock - lastSuccessfulHeartbeat then .sleeping (clock + abortPause)
    else .leading etag lastSuccessfulHeartbeat tick
  | .error (.malformed _ _) => .exited

variable [DecidableEq ι]

/-- The next step of a process, if it can take one. -/
def advance (i : ι) (c : HaChoice) (w : LeaseStore ι ι) : HaPhase ι → Option (LeaseStore ι ι × HaPhase ι)
  | .claiming (.ask op next) => some ((w.exec i c.fault op).2, .claiming (next (w.exec i c.fault op).1))
  | .claiming (.done r) => some (w, afterClaim args w.clock r)
  | .sleeping wake => if wake ≤ w.clock then some (w, .claiming (args.lease i).tryClaim) else none
  | .starting etag =>
    some (w, if c.fails then .exited else .leading etag w.clock (w.clock + args.haHeartbeatInterval))
  | .leading etag lastOk tick =>
    if c.fails then some (w, .exited)
    else if tick ≤ w.clock then
      -- a missed tick is made up for at once
      some (w, .refreshing etag lastOk (tick + args.haHeartbeatInterval) ((args.lease i).heartbeat etag))
    else none
  | .refreshing etag lastOk tick (.ask op next) =>
    some ((w.exec i c.fault op).2, .refreshing etag lastOk tick (next (w.exec i c.fault op).1))
  | .refreshing etag lastOk tick (.done r) => some (w, afterHeartbeat args w.clock etag lastOk tick r)
  | .exited => none

namespace HaCluster

/-- All processes start with a claim; the store may have an object from before. -/
def initial (object : Option (Except String (LeasePayload ι))) (clock : Nat) : HaCluster ι :=
  ⟨.initial object clock, fun i => .claiming (args.lease i).tryClaim⟩

def step (s : HaCluster ι) : HaEvent ι → Option (HaCluster ι)
  | .step i c => (advance args i c s.store (s.phases i)).map fun r => ⟨r.1, Function.update s.phases i r.2⟩
  | .wait d => some ⟨s.store.wait d, s.phases⟩

end HaCluster

end Process

/-! ## What the processes keep -/

section Sound

variable {ι : Type} [DecidableEq ι] {args : SchedulerArgs} {i j : ι} {w w' : LeaseStore ι ι} {phase phase' : HaPhase ι}

/-- A process presents only ETags of its own writes. -/
def HaPhase.Sound (i : ι) (w : LeaseStore ι ι) : HaPhase ι → Prop
  | claiming call => wp (LeaseStore.exec i) (callTerms .claim i) call (ClaimPost i) w
  | starting etag | leading etag _ _ => Owns i etag w
  | refreshing etag _ _ call =>
    Owns i etag w ∧ wp (LeaseStore.exec i) (callTerms .heartbeat i) call (HeartbeatPost i) w
  | sleeping _ | exited => True

omit [DecidableEq ι] in
theorem ClaimPost.stable (r) : (callTerms .claim i).Stable (ClaimPost i r : LeaseStore ι ι → Prop) :=
  fun w w' hre h => ⟨inv_stable w w' hre h.1, fun etag payload hr => Owns.stable w w' hre (h.2 etag payload hr)⟩

omit [DecidableEq ι] in
theorem HeartbeatPost.stable (r) : (callTerms .heartbeat i).Stable (HeartbeatPost i r : LeaseStore ι ι → Prop) :=
  fun w w' hre h => ⟨inv_stable w w' hre h.1, fun etag hr => Owns.stable w w' hre (h.2 etag hr)⟩

theorem HaPhase.Sound.later (h : phase.Sound i w)
    (hr : w.Inv → w'.Inv ∧ w.Newer w' ∧ w'.looks i = w.looks i) : phase.Sound i w' := by
  have ho : ∀ {etag}, Owns i etag w → Owns i etag w' := fun ho =>
    ho.newer (hr ho.inv).1 (hr ho.inv).2.1
  cases phase with
  | claiming call => exact wp_stable ClaimPost.stable h hr
  | starting etag => exact ho h
  | leading etag lastOk tick => exact ho h
  | refreshing etag lastOk tick call => exact ⟨ho h.1, wp_stable HeartbeatPost.stable h.2 hr⟩
  | sleeping wake => trivial
  | exited => trivial

theorem afterClaim_sound {r} (h : ClaimPost i r w) : (afterClaim args w.clock r).Sound i w := by
  match r with
  | .ok (.acquired etag payload) => exact h.2 etag payload rfl
  | .ok (.heldByOther payload) => trivial
  | .error (.backend message) => trivial
  | .error (.malformed path source) => trivial
  | .error .leadershipLost => trivial

theorem afterHeartbeat_sound {etag lastOk tick r} (ho : Owns i etag w)
    (h : HeartbeatPost i r w) : (afterHeartbeat args w.clock etag lastOk tick r).Sound i w := by
  match r with
  | .ok newETag => exact h.2 newETag rfl
  | .error .leadershipLost => trivial
  | .error (.backend message) =>
    dsimp only [afterHeartbeat]
    split
    · trivial
    · exact ho
  | .error (.malformed path source) => trivial

theorem advance_sound {c} (hi : w.Inv) (h : phase.Sound i w)
    (ha : advance args i c w phase = some (w', phase')) :
    (w'.Inv ∧ w.Newer w' ∧ ∀ j, j ≠ i → w'.looks j = w.looks j) ∧ phase'.Sound i w' := by
  have hs : w.Inv ∧ w.Newer w ∧ ∀ j, j ≠ i → w.looks j = w.looks j := ⟨hi, .refl w, fun _ _ => rfl⟩
  match phase with
  | .claiming (.ask op next) =>
    cases ha
    obtain ⟨hg, hr⟩ := h w ((callTerms .claim i).refl w) c.fault
    obtain ⟨hi', hn, hl, -⟩ := hg hi
    exact ⟨⟨hi', hn, hl⟩, hr⟩
  | .claiming (.done r) =>
    cases ha
    exact ⟨hs, afterClaim_sound h⟩
  | .sleeping wake =>
    dsimp only [advance] at ha
    split at ha
    next =>
      cases ha
      exact ⟨hs, wp_tryClaim hi⟩
    next => cases ha
  | .starting etag =>
    cases ha
    refine ⟨hs, ?_⟩
    split
    · trivial
    · exact h
  | .leading etag lastOk tick =>
    dsimp only [advance] at ha
    split at ha
    next =>
      cases ha
      exact ⟨hs, trivial⟩
    next =>
      split at ha
      next =>
        cases ha
        exact ⟨hs, h, wp_heartbeat h⟩
      next => cases ha
  | .refreshing etag lastOk tick (.ask op next) =>
    cases ha
    obtain ⟨hg, hr⟩ := h.2 w ((callTerms .heartbeat i).refl w) c.fault
    obtain ⟨hi', hn, hl, -⟩ := hg hi
    exact ⟨⟨hi', hn, hl⟩, h.1.newer hi' hn, hr⟩
  | .refreshing etag lastOk tick (.done r) =>
    cases ha
    exact ⟨hs, afterHeartbeat_sound h.1 h.2⟩
  | .exited => cases ha

namespace HaCluster

structure Sound (s : HaCluster ι) : Prop where
  inv : s.store.Inv
  phases : ∀ i, (s.phases i).Sound i s.store

theorem Sound.initial (args object clock) : (initial args object clock : HaCluster ι).Sound :=
  have hi : (LeaseStore.initial object clock : LeaseStore ι ι).Inv := LeaseCalls.inv_initial object clock
  ⟨hi, fun _ => wp_tryClaim hi⟩

theorem Sound.step {s s' : HaCluster ι} {e} (h : s.Sound) (hstep : s.step args e = some s') : s'.Sound := by
  cases e with
  | step i c =>
    obtain ⟨⟨w', phase'⟩, ha, rfl⟩ := Option.map_eq_some_iff.mp hstep
    obtain ⟨⟨hi, hn, hl⟩, hp⟩ := advance_sound h.inv (h.phases i) ha
    refine ⟨hi, fun j => ?_⟩
    by_cases hji : j = i
    · subst hji
      show (Function.update s.phases j phase' j).Sound j w'
      rw [Function.update_self]
      exact hp
    · show (Function.update s.phases i phase' j).Sound j w'
      rw [Function.update_of_ne hji]
      exact (h.phases j).later fun _ => ⟨hi, hn, hl j hji⟩
  | wait d =>
    cases hstep
    refine ⟨h.inv.wait d, fun j => (h.phases j).later fun hi => ?_⟩
    exact ⟨hi.wait d, LeaseStore.newer_wait d, rfl⟩

end HaCluster

end Sound

end Dataglot
