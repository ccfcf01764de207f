/-
Any number of claims and heartbeats over one lease, in every interleaving of their store
operations and clock readings, with failing operations and lost replies: there is one
holder at a time.
-/
import Dataglot.Ballista.LeaseCalls
import Dataglot.Library.Runs

namespace Dataglot
open ObjectStore LeaseStore
open Programs

variable {H : Type} [DecidableEq H]

/-! ## The system -/

abbrev LeaseSlot := CallKind × Nat

inductive LeaseResult (H : Type)
  | claimed (result : Except LeaseError (ClaimOutcome H))
  | refreshed (result : Except LeaseError ETag)

abbrev LeaseCalls (H : Type) : Type :=
  Pool LeaseSlot (LeaseStore H LeaseSlot) (LeaseOp H) LeaseOp.Reply (LeaseResult H)

inductive LeaseEvent (H : Type)
  | claim (n : Nat) (lease : ObjectStoreLease H)
  /-- with the ETag of a write of the same holder -/
  | heartbeat (n : Nat) (lease : ObjectStoreLease H) (etag : ETag)
  /-- the call in a slot takes its next operation -/
  | run (slot : LeaseSlot) (fault : Option Fault)
  | wait (d : Nat)

def claimCall (lease : ObjectStoreLease H) : LeaseProgram H (LeaseResult H) := do
  return .claimed (← lease.tryClaim)

def heartbeatCall (lease : ObjectStoreLease H) (etag : ETag) : LeaseProgram H (LeaseResult H) := do
  return .refreshed (← lease.heartbeat etag)

/-- A store that nobody has written a lease to; the object may still be there, as something else. -/
def LeaseStore.unwritten {κ : Type} (object : Option String) (clock : Nat) : LeaseStore H κ :=
  ⟨object.map fun source => (.error source, 0), 1, clock, fun _ => none, fun _ => none, fun _ => none⟩

/-- A lease that is there counts as written by its holder. -/
def LeaseStore.initial {κ : Type} : Option (Except String (LeasePayload H)) → Nat → LeaseStore H κ
  | none, clock => .unwritten none clock
  | some (.error source), clock => .unwritten (some source) clock
  | some (.ok payload), clock => (LeaseStore.unwritten none clock).write payload

namespace LeaseCalls

def initial (object : Option (Except String (LeasePayload H))) (clock : Nat) : LeaseCalls H :=
  ⟨.initial object clock, fun _ => none⟩

def step (s : LeaseCalls H) : LeaseEvent H → Option (LeaseCalls H)
  | .claim n lease => s.start (.claim, n) (claimCall lease)
  | .heartbeat n lease etag =>
    if s.shared.writer etag = some lease.holderId then s.start (.heartbeat, n) (heartbeatCall lease etag) else none
  | .run slot fault => s.run LeaseStore.exec slot fault
  | .wait d => some ⟨s.shared.wait d, s.procs⟩

/-- A conditional write of the call takes effect in the step. -/
def Updates (s : LeaseCalls H) (slot : LeaseSlot) (etag : ETag) (payload : LeasePayload H) (s' : LeaseCalls H) : Prop :=
  (∃ next, s.procs slot = some (.ask (.put (.update etag) payload) next)) ∧ s.shared.nextETag < s'.shared.nextETag

/-- A steal takes effect only if the payload it replaces is the one the claim read, unchanged, and that had expired
by the clock reading after the read. -/
def StealsExpired (s : LeaseCalls H) (e : LeaseEvent H) (s' : LeaseCalls H) : Prop :=
  ∀ n fault etag payload, e = .run (.claim, n) fault → s.Updates (.claim, n) etag payload s' →
    ∃ q t, s.shared.looks (.claim, n) = some ⟨q, etag, some t⟩ ∧ q.expiresAt ≤ t ∧ s.shared.object = some (.ok q, etag)

/-- A heartbeat takes effect only if the ETag it presents is that of a write of its holder, after which no other
holder has written. -/
def RefreshesOwn (s : LeaseCalls H) (e : LeaseEvent H) (s' : LeaseCalls H) : Prop :=
  ∀ n fault etag payload, e = .run (.heartbeat, n) fault → s.Updates (.heartbeat, n) etag payload s' →
    s.shared.writer etag = some payload.holderId ∧
    ∀ later h, etag < later → s.shared.writer later = some h → h = payload.holderId

/-! ## Runs -/

structure Sound (s : LeaseCalls H) : Prop where
  inv : s.shared.Inv
  pool : Pool.Sound LeaseStore.exec (fun slot => callTerms slot.1 slot) (fun _ _ _ => True) s

omit [DecidableEq H] in
theorem inv_unwritten {κ : Type} (object clock) :
    (unwritten object clock : LeaseStore H κ).Inv := by
  refine ⟨fun content e he => ?_, fun content e h he => ?_, nofun, nofun, nofun⟩ <;>
    obtain ⟨source, -, hs⟩ := Option.map_eq_some_iff.mp he <;> cases hs
  · exact Nat.zero_lt_one
  · exact ⟨nofun, nofun⟩

theorem inv_initial {κ : Type} (object clock) : (LeaseStore.initial object clock : LeaseStore H κ).Inv :=
  match object with
  | none => inv_unwritten none clock
  | some (.error source) => inv_unwritten (some source) clock
  | some (.ok _) => (inv_unwritten none clock).write nofun

variable {s s' : LeaseCalls H} {e : LeaseEvent H}

theorem Sound.start {slot} {p : LeaseProgram H (LeaseResult H)} (h : s.Sound)
    (hp : wp (exec slot) (callTerms slot.1 slot) p (fun _ _ => True) s.shared)
    (hs : Pool.start slot p s = some s') : s'.Sound := by
  refine ⟨?_, h.pool.start hp hs⟩
  rw [Pool.start_eq_some hs]
  exact h.inv

theorem Sound.run {slot fault} (h : s.Sound) (hr : Pool.run exec slot fault s = some s') : s'.Sound := by
  refine ⟨?_, h.pool.run (fun _ _ _ _ _ _ => trivial) (fun i j hij w op r w' hg hi => ?_) hr⟩
  · obtain ⟨op, next, ha, rfl⟩ := Pool.run_eq_some.mp hr
    exact (h.pool.guar ha fault h.inv).1
  · obtain ⟨hi', hn, hl, -⟩ := hg hi
    exact ⟨hi', hn, hl i hij⟩

theorem Sound.step (h : s.Sound) (hstep : s.step e = some s') : s'.Sound := by
  cases e with
  | claim n lease =>
    refine h.start ?_ hstep
    exact wp_bind.mpr (wp_mono (fun _ _ _ => trivial) (wp_tryClaim h.inv))
  | heartbeat n lease etag =>
    dsimp only [LeaseCalls.step] at hstep
    split at hstep
    next hw =>
      obtain ⟨content, e, ho, hle⟩ := h.inv.newest etag _ hw
      have how : Owns lease.holderId etag s.shared :=
        ⟨h.inv, Nat.lt_of_le_of_lt hle (h.inv.numbered content e ho), hw⟩
      exact h.start (wp_bind.mpr (wp_mono (fun _ _ _ => trivial) (wp_heartbeat how))) hstep
    next => cases hstep
  | run slot fault => exact h.run hstep
  | wait d =>
    cases hstep
    refine ⟨h.inv.wait d, fun slot p hp => ?_⟩
    exact wp_stable (fun _ _ _ _ _ => trivial) (h.pool slot p hp)
      fun hi => ⟨hi.wait d, newer_wait d, rfl⟩

theorem Sound.justified {slot fault etag payload}
    (h : s.Sound) (hr : s.step (.run slot fault) = some s') (hu : s.Updates slot etag payload s') :
    Justified s.shared slot slot.1 (.put (.update etag) payload) := by
  obtain ⟨⟨next, ha⟩, hw⟩ := hu
  obtain ⟨op, next', ha', rfl⟩ := Pool.run_eq_some.mp hr
  cases ha.symm.trans ha'
  exact (h.pool.guar ha fault h.inv).2.2.2 hw

/-- There is one holder at a time; a steal replaces a payload that had expired when it was read and is still there; a
heartbeat succeeds only where no other holder has written after it. -/
theorem lease_exclusive (object : Option (Except String (LeasePayload H))) (clock : Nat)
    (events : List (LeaseEvent H)) :
    Runs.Along step (fun s e s' => s'.shared.Exclusive ∧ StealsExpired s e s' ∧ RefreshesOwn s e s')
      (initial object clock) events := by
  refine Runs.along_of_inv Sound (fun s e s' h hstep => ?_) events ⟨inv_initial object clock, nofun⟩
  have hs' := h.step hstep
  refine ⟨hs', hs'.inv.exclusive, ?_, ?_⟩
  · rintro n fault etag payload rfl hu
    exact h.justified hstep hu
  · rintro n fault etag payload rfl hu
    exact h.justified hstep hu

end LeaseCalls

end Dataglot
