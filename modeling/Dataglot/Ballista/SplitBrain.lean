/-
When two processes run their scheduler tasks at the same time.

A task is safe as long as the last write of its process has not expired. But a process
looks at its lease on ticks only, and counts from the reply it got: while a store operation
is slow, or fails, its task outlives the lease.
-/
import Dataglot.Ballista.SchedulerHa

namespace Dataglot
open ObjectStore Function
open Programs

namespace HaCluster

variable {ι : Type} [DecidableEq ι] {args : SchedulerArgs} {gap : Nat} {i j : ι}

def SplitBrain (s : HaCluster ι) : Prop :=
  ∃ i j, i ≠ j ∧ (s.phases i).isRunning = true ∧ (s.phases j).isRunning = true

/-- No task runs later than the gap after the clock reading from which the expiry of its process's last write was
computed. -/
def RefreshedWithin (args : SchedulerArgs) (gap : Nat) (s : HaCluster ι) : Prop :=
  ∀ i, (s.phases i).isRunning = true →
    ∃ t, s.store.last i = some ⟨i, t + args.haLeaseDuration⟩ ∧ s.store.clock ≤ t + gap

/-- Within the lease duration there is one task. -/
theorem Sound.no_split_brain {s : HaCluster ι} (h : s.Sound) (hgap : gap < args.haLeaseDuration)
    (hr : s.RefreshedWithin args gap) : ¬ s.SplitBrain := by
  rintro ⟨i, j, hij, hi, hj⟩
  obtain ⟨t, ht, hclock⟩ := hr i hi
  obtain ⟨u, hu, hclock'⟩ := hr j hj
  refine hij (h.inv.exclusive i j _ _ ht hu ?_ ?_)
  · show s.store.clock < t + args.haLeaseDuration
    omega
  · show s.store.clock < u + args.haLeaseDuration
    omega

/-! ## A slow heartbeat -/

def calmStep : HaChoice := ⟨none, false⟩

/-- A store whose lease a process has claimed at time 0. -/
def heldBy (args : SchedulerArgs) (i : ι) (clock : Nat) : LeaseStore ι ι :=
  { (LeaseStore.unwritten none 0).write ⟨i, 0 + args.haLeaseDuration⟩ with clock := clock }

theorem refreshedWithin_update {w phases phase} (ho : RefreshedWithin args gap ⟨w, phases⟩)
    (hs : phase.isRunning = true → ∃ t, w.last i = some ⟨i, t + args.haLeaseDuration⟩ ∧ w.clock ≤ t + gap) :
    RefreshedWithin args gap ⟨w, update phases i phase⟩ := by
  intro k hk
  dsimp only at hk ⊢
  by_cases hki : k = i
  · subst hki
    rw [update_self] at hk
    exact hs hk
  · rw [update_of_ne hki] at hk
    exact ho k hk

section SlowHeartbeat

variable {P : HaCluster ι → Prop} {phases : ι → HaPhase ι} {phase phase' : HaPhase ι} {w w' : LeaseStore ι ι}

/-- A run leads to where `P` holds, with no task later than the gap. -/
abbrev LeadsTo (args : SchedulerArgs) (gap : Nat) (P : HaCluster ι → Prop) (s : HaCluster ι) : Prop :=
  Runs.Leads (step args) (fun _ _ s' => RefreshedWithin args gap s') P s

theorem leadsTo_advance (ha : advance args i calmStep w phase = some (w', phase'))
    (hr : RefreshedWithin args gap ⟨w', update phases i phase'⟩)
    (hre : LeadsTo args gap P ⟨w', update phases i phase'⟩) : LeadsTo args gap P ⟨w, update phases i phase⟩ := by
  refine .head (.step i calmStep) ?_ hr hre
  dsimp only [step]
  rw [update_self, ha, Option.map_some, update_idem]

theorem leadsTo_wait {clock clock'} (hle : clock ≤ clock')
    (hr : RefreshedWithin args gap ⟨heldBy args i clock', phases⟩)
    (hre : LeadsTo args gap P ⟨heldBy args i clock', phases⟩) :
    LeadsTo args gap P ⟨heldBy args i clock, phases⟩ := by
  refine .head (.wait (clock' - clock)) ?_ hr hre
  show some (⟨heldBy args i (clock + (clock' - clock)), phases⟩ : HaCluster ι) = _
  rw [Nat.add_sub_cancel' hle]

theorem leadsTo_leading (hr : LeadsTo args gap P
      ⟨heldBy args i 0, update (initial args none 0).phases i (.leading 1 0 (0 + args.haHeartbeatInterval))⟩) :
    LeadsTo args gap P (initial args none 0) := by
  have hi : ∀ w : LeaseStore ι ι, RefreshedWithin args gap ⟨w, (initial args none 0).phases⟩ :=
    fun w k hk => absurd hk Bool.false_ne_true
  have hs : (initial args none 0 : HaCluster ι) = ⟨.unwritten none 0, update (initial args none 0).phases i
      (.claiming (args.lease i).tryClaim)⟩ := by
    rw [show HaPhase.claiming (args.lease i).tryClaim = (initial args none 0).phases i from rfl, update_eq_self]
    rfl
  rw [hs]
  refine leadsTo_advance rfl (refreshedWithin_update (hi _) nofun) ?_
  refine leadsTo_advance rfl (refreshedWithin_update (hi _) nofun) ?_
  refine leadsTo_advance rfl (refreshedWithin_update (hi _) nofun) ?_
  refine leadsTo_advance rfl (refreshedWithin_update (hi _) fun _ => ?_) hr
  exact ⟨0, update_self .., Nat.zero_le _⟩

theorem refreshedWithin_held {clock} (hlast : w.last i = some ⟨i, 0 + args.haLeaseDuration⟩)
    (hclock : w.clock = clock) (hgap : clock ≤ gap) :
    RefreshedWithin args gap ⟨w, update (initial args none 0).phases i phase⟩ := by
  refine refreshedWithin_update (fun k hk => absurd hk Bool.false_ne_true) fun _ => ⟨0, hlast, ?_⟩
  omega

theorem leadsTo_refreshing (hi : args.haHeartbeatInterval ≤ args.haLeaseDuration)
    (hg : args.haLeaseDuration ≤ gap) (hr : ∀ phase, phase.isRunning = true → LeadsTo args gap P
      ⟨heldBy args i args.haLeaseDuration, update (initial args none 0).phases i phase⟩) :
    LeadsTo args gap P
      ⟨heldBy args i 0, update (initial args none 0).phases i (.leading 1 0 (0 + args.haHeartbeatInterval))⟩ := by
  have hh : ∀ {clock phase}, clock ≤ gap →
      RefreshedWithin args gap ⟨heldBy args i clock, update (initial args none 0).phases i phase⟩ :=
    fun hle => refreshedWithin_held (update_self ..) rfl hle
  have ht : advance args i calmStep (heldBy args i args.haHeartbeatInterval)
      (.leading 1 0 (0 + args.haHeartbeatInterval)) = some (heldBy args i args.haHeartbeatInterval,
        .refreshing 1 0 (0 + args.haHeartbeatInterval + args.haHeartbeatInterval) ((args.lease i).heartbeat 1)) := by
    dsimp only [advance, calmStep, heldBy]
    rw [if_neg Bool.false_ne_true, if_pos (Nat.le_of_eq (Nat.zero_add _))]
  refine leadsTo_wait (Nat.zero_le args.haHeartbeatInterval) (hh (Nat.le_trans hi hg)) ?_
  refine leadsTo_advance ht (hh (Nat.le_trans hi hg)) ?_
  refine leadsTo_advance rfl (hh (Nat.le_trans hi hg)) ?_
  exact leadsTo_wait hi (hh hg) (hr _ rfl)

theorem advance_claiming {op} {next : op.Reply → LeaseProgram ι (Except LeaseError (ClaimOutcome ι))}
    {r} (he : w.exec i none op = (r, w')) :
    advance args i calmStep w (.claiming (.ask op next)) = some (w', .claiming (next r)) := by
  dsimp only [advance, calmStep]
  rw [he]

/-- Another process finds the lease expired, takes it over and spawns its task. -/
theorem leadsTo_split (hij : i ≠ j) (hg : args.haLeaseDuration ≤ gap) (hp : phase.isRunning = true) :
    LeadsTo args gap SplitBrain
      ⟨heldBy args i args.haLeaseDuration, update (initial args none 0).phases i phase⟩ := by
  have hs : update (initial args none 0).phases i phase =
      update (update (initial args none 0).phases i phase) j (.claiming (args.lease j).tryClaim) := by
    have hj : update (initial args none 0).phases i phase j = .claiming (args.lease j).tryClaim :=
      update_of_ne hij.symm ..
    rw [← hj, update_eq_self]
  have hh : ∀ {w phase'}, w.last i = some ⟨i, 0 + args.haLeaseDuration⟩ →
      w.clock = args.haLeaseDuration → phase'.isRunning = false → RefreshedWithin args gap
        ⟨w, update (update (initial args none 0).phases i phase) j phase'⟩ := fun hlast hc hi =>
    refreshedWithin_update (refreshedWithin_held hlast hc hg) fun h => absurd (hi.symm.trans h) Bool.false_ne_true
  -- all it changes before its update is what it has looked at
  have hc : ∀ looks, ∃ looks', LeaseStore.exec j none
      { heldBy args i args.haLeaseDuration with looks := looks } .now =
        (args.haLeaseDuration, { heldBy args i args.haLeaseDuration with looks := looks' }) := by
    intro looks
    obtain ⟨look, hl⟩ := LeaseStore.noteClock_eq { heldBy args i args.haLeaseDuration with looks := looks } j
    exact ⟨_, Prod.ext rfl hl⟩
  rw [hs]
  obtain ⟨looks₁, hn₁⟩ := hc (heldBy args i args.haLeaseDuration).looks
  refine leadsTo_advance (advance_claiming hn₁) (hh (update_self ..) rfl rfl) ?_
  refine leadsTo_advance (advance_claiming rfl) (hh (update_self ..) rfl rfl) ?_
  refine leadsTo_advance (advance_claiming rfl) (hh (update_self ..) rfl rfl) ?_
  obtain ⟨looks₂, hn₂⟩ := hc (update looks₁ j (some ⟨⟨i, 0 + args.haLeaseDuration⟩, 1, none⟩))
  have he : ¬ args.haLeaseDuration < 0 + args.haLeaseDuration := by omega
  have hju : advance args j calmStep { heldBy args i args.haLeaseDuration with
        looks := update looks₁ j (some ⟨⟨i, 0 + args.haLeaseDuration⟩, 1, none⟩) }
      (.claiming (.ask .now fun t => if t < 0 + args.haLeaseDuration then
        pure (.ok (.heldByOther ⟨i, 0 + args.haLeaseDuration⟩)) else (args.lease j).steal 1)) =
      some ({ heldBy args i args.haLeaseDuration with looks := looks₂ }, .claiming ((args.lease j).steal 1)) := by
    rw [advance_claiming hn₂, if_neg he]
  refine leadsTo_advance hju (hh (update_self ..) rfl rfl) ?_
  obtain ⟨looks₃, hn₃⟩ := hc looks₂
  refine leadsTo_advance (advance_claiming hn₃) (hh (update_self ..) rfl rfl) ?_
  have hlast : (({ heldBy args i args.haLeaseDuration with looks := looks₃ } : LeaseStore ι ι).write
      ⟨j, args.haLeaseDuration + args.haLeaseDuration⟩).last i = some ⟨i, 0 + args.haLeaseDuration⟩ :=
    (update_of_ne hij ..).trans (update_self ..)
  refine leadsTo_advance (advance_claiming rfl) (hh hlast rfl rfl) ?_
  refine leadsTo_advance rfl (hh hlast rfl rfl) ?_
  refine leadsTo_advance rfl (refreshedWithin_update (refreshedWithin_held hlast rfl hg) fun _ => ?_) (.here ?_)
  · exact ⟨args.haLeaseDuration, update_self .., Nat.le_add_right _ _⟩
  · refine ⟨i, j, hij, ?_, ?_⟩
    · dsimp only
      rw [update_of_ne hij, update_self]
      exact hp
    · dsimp only
      rw [update_self]
      rfl

end SlowHeartbeat

/-- The defaults: a lease of 30 s, refreshed every 10 s. -/
def defaultArgs : SchedulerArgs := ⟨"lease", 30000, 10000⟩

/-- One process leads from time 0 on; its refresh at 10 s is still on its way when the other finds the lease expired
at 30 s. -/
def slowHeartbeat : List (HaEvent Bool) :=
  List.replicate 4 (HaEvent.step true calmStep) ++ [HaEvent.wait 10000] ++
    List.replicate 2 (HaEvent.step true calmStep) ++ [HaEvent.wait 20000] ++
    List.replicate 8 (HaEvent.step false calmStep)

end HaCluster

end Dataglot
