/-
What `LeadershipLost` and `HeldByOther` mean to one scheduler, whatever the others do between
its operations. A write that takes effect although its reply is lost leaves the scheduler
with an ETag that is no longer the lease's, or with a lease it does not know of. Up to the
first call that ends in an error, the lease is lost to another holder only, and no claim is
refused for a live lease of the scheduler's own.
-/
import Dataglot.Ballista.SchedulerHa

namespace Dataglot
open ObjectStore LeaseStore Function
open Programs Relation

variable {H κ : Type} {h : H} {slot : κ} {w w' : LeaseStore H κ} {etag : ETag}

/-- The lease object is the newest write. -/
structure Tidy (w : LeaseStore H κ) : Prop where
  numbered : ∀ content e, w.object = some (content, e) → e < w.nextETag
  newest : ∀ e h, w.writer e = some h →
    ∃ p e', w.object = some (.ok p, e') ∧ e ≤ e' ∧ ∀ h', w.writer e' = some h' ↔ p.holderId = h'

/-- The lease is not a live one of the holder. -/
structure Free (h : H) (w : LeaseStore H κ) : Prop extends Tidy w where
  dead : ∀ p e, w.object = some (.ok p, e) → p.holderId = h → p.expiresAt ≤ w.clock

/-- The ETag is that of the holder's last write. -/
structure Holds (h : H) (etag : ETag) (w : LeaseStore H κ) : Prop extends Tidy w where
  writer : w.writer etag = some h
  last : ∀ e, w.writer e = some h → e ≤ etag

theorem Tidy.below (hw : Tidy w) {e} (he : w.writer e = some h) : e < w.nextETag := by
  obtain ⟨p, e', ho, hle, -⟩ := hw.newest e h he
  exact Nat.lt_of_le_of_lt hle (hw.numbered _ e' ho)

/-- What an answer to a claim says. -/
def ClaimRight (h : H) (w : LeaseStore H κ) : Except LeaseError (ClaimOutcome H) → Prop
  | .ok (.acquired etag _) => Holds h etag w
  | .ok (.heldByOther p) => Free h w ∧ (p.holderId = h → p.expiresAt ≤ w.clock)
  | .error _ => True

/-- What an answer to a heartbeat says. -/
def RefreshRight (h : H) (etag : ETag) (w : LeaseStore H κ) : Except LeaseError ETag → Prop
  | .ok etag' => Holds h etag' w
  | .error .leadershipLost => Free h w ∧ ∃ e h', etag < e ∧ h' ≠ h ∧ w.writer e = some h'
  | .error _ => True

/-- Where the presented ETag is the last one of the holder's own, and not the lease's, the lease is another's. -/
theorem Holds.lost (hw : Holds h etag w) (hn : ¬ w.Allows (.update etag)) : RefreshRight h etag w (.error .leadershipLost) := by
  obtain ⟨p, e, ho, hle, hp⟩ := hw.newest etag h hw.writer
  have hlt : etag < e := by
    refine Nat.lt_of_le_of_ne hle ?_
    rintro rfl
    exact hn ⟨_, ho⟩
  have hot : p.holderId ≠ h := fun heq => Nat.not_le.mpr hlt (hw.last e ((hp h).mpr heq))
  refine ⟨⟨hw.toTidy, fun q e' hq hh => ?_⟩, e, p.holderId, hlt, hot, (hp _).mpr rfl⟩
  cases ho.symm.trans hq
  exact absurd hh hot

section Others

variable [DecidableEq H]

/-- What another holder does, or the clock. -/
inductive OtherStep (h : H) : LeaseStore H κ → LeaseStore H κ → Prop
  | wait (w : LeaseStore H κ) (d : Nat) : OtherStep h w (w.wait d)
  | look (w : LeaseStore H κ) (looks) : OtherStep h w { w with looks := looks }
  | write (w : LeaseStore H κ) (payload) : payload.holderId ≠ h → OtherStep h w (w.write payload)

def amongOthers (h : H) : Terms (LeaseStore H κ) (LeaseOp H) LeaseOp.Reply where
  rely := ReflTransGen (OtherStep h)
  guar _ _ _ _ := True
  refl _ := .refl
  trans := .trans

theorem Tidy.write (hw : Tidy w) (payload) : Tidy (w.write payload) where
  numbered content e ho := by
    cases ho
    exact Nat.lt_succ_self _
  newest e h he := by
    refine ⟨payload, w.nextETag, rfl, ?_, fun h' => by simp [LeaseStore.write]⟩
    by_cases hne : e = w.nextETag
    · exact Nat.le_of_eq hne
    · obtain ⟨p, e', ho, hle, -⟩ := hw.newest e h ((update_of_ne hne ..).symm.trans he)
      exact Nat.le_of_lt (Nat.lt_of_le_of_lt hle (hw.numbered _ e' ho))

theorem Tidy.holds_write (hw : Tidy w) (payload) : Holds payload.holderId w.nextETag (w.write payload) := by
  refine ⟨hw.write payload, update_self .., fun e he => ?_⟩
  exact Nat.le_of_lt_succ ((hw.write payload).below he)

theorem stable_of_step {P : LeaseStore H κ → Prop} (hstep : ∀ w w', OtherStep h w w' → P w → P w') :
    (amongOthers h).Stable P := by
  intro w w' hr hw
  induction hr with
  | refl => exact hw
  | tail _ hs ih => exact hstep _ _ hs ih

theorem Free.stable : (amongOthers h).Stable (Free h : LeaseStore H κ → Prop) := by
  refine stable_of_step fun w w' hs hw => ?_
  cases hs with
  | wait d => exact ⟨⟨hw.numbered, hw.newest⟩, fun p e ho hp => Nat.le_add_right_of_le (hw.dead p e ho hp)⟩
  | look looks => exact ⟨⟨hw.numbered, hw.newest⟩, hw.dead⟩
  | write payload hne =>
    refine ⟨hw.toTidy.write payload, fun p e ho hp => ?_⟩
    cases ho
    exact absurd hp hne

/-- A dead lease stays dead. -/
theorem Free.stable_dead (q : LeasePayload H) : (amongOthers h).Stable fun w : LeaseStore H κ =>
    Free h w ∧ (q.holderId = h → q.expiresAt ≤ w.clock) := by
  refine stable_of_step fun w w' hs hw => ⟨Free.stable _ _ (.single hs) hw.1, fun hq => ?_⟩
  cases hs with
  | wait d => exact Nat.le_add_right_of_le (hw.2 hq)
  | look looks | write payload hne => exact hw.2 hq

theorem Holds.stable : (amongOthers h).Stable (Holds h etag : LeaseStore H κ → Prop) := by
  refine stable_of_step fun w w' hs hw => ?_
  cases hs with
  | wait d | look looks => exact ⟨⟨hw.numbered, hw.newest⟩, hw.writer, hw.last⟩
  | write payload hne =>
    have ho : ∀ e, (w.write payload).writer e = some h ↔ w.writer e = some h := fun e => by
      by_cases he : e = w.nextETag
      · subst he
        simp only [LeaseStore.write, update_self, Option.some.injEq, hne, false_iff]
        exact fun he => Nat.lt_irrefl _ (hw.below he)
      · simp only [LeaseStore.write, update_of_ne he]
    exact ⟨hw.toTidy.write payload, (ho etag).mpr hw.writer, fun e he => hw.last e ((ho e).mp he)⟩

/-! ## The calls -/

variable [DecidableEq κ] {lease : ObjectStoreLease H}

variable {β : Type} {P : LeaseStore H κ → Prop} {post : β → LeaseStore H κ → Prop}

theorem wp_clock {f : Nat → LeaseProgram H β} (hP : (amongOthers h).Stable P) (hw : P w)
    (hf : ∀ w t, P w → wp (exec slot) (amongOthers h) (f t) post w) :
    wp (exec slot) (amongOthers h) (utcNow >>= f) post w := by
  refine wp_ask hP hw fun w fault hw => ⟨trivial, ?_⟩
  obtain ⟨look, hl⟩ := w.noteClock_eq slot
  have hlo : OtherStep h w (w.noteClock slot) := hl ▸ .look w _
  exact hf _ _ (hP _ _ (.single hlo) hw)

/-- The reply to a write that takes effect is an ETag, or tells nothing. -/
theorem wp_putOwn {mode payload} {f : Except OsError (Option ETag) → LeaseProgram H β}
    (hP : (amongOthers h).Stable P) (hw : P w)
    (hd : ∀ w, P w → wp (exec slot) (amongOthers h) (f (.ok (some w.nextETag))) post (w.write payload))
    (hn : ∀ w, wp (exec slot) (amongOthers h) (f (.ok none)) post w)
    (hg : ∀ w m, wp (exec slot) (amongOthers h) (f (.error (.generic m))) post w)
    (hf : ∀ w e, P w → ¬ w.Allows mode → wp (exec slot) (amongOthers h) (f (.error e)) post w) :
    wp (exec slot) (amongOthers h) (putOpts mode payload >>= f) post w := by
  refine wp_ask hP hw fun w fault hw => ⟨trivial, ?_⟩
  obtain ⟨e, he, ha⟩ | ⟨-, r, he, hr⟩ := w.exec_put slot fault mode payload
  · rw [he]
    by_cases hal : w.Allows mode
    · obtain ⟨m, rfl⟩ := ha hal
      exact hg w m
    · exact hf w e hw hal
  · rw [he]
    obtain rfl | rfl | ⟨m, rfl⟩ := hr
    · exact hd w hw
    · exact hn _
    · exact hg _ m

theorem heartbeat_right (hw : Holds lease.holderId etag w) : wp (exec slot) (amongOthers lease.holderId)
    (lease.heartbeat etag) (fun r w => RefreshRight lease.holderId etag w r) w := by
  refine wp_clock Holds.stable hw fun w t hw => ?_
  refine wp_putOwn Holds.stable hw (fun w hw => hw.toTidy.holds_write ⟨_, _⟩) (fun _ => trivial) (fun _ _ => trivial) ?_
  intro w e hw hn
  cases e with
  | precondition m => exact hw.lost hn
  | alreadyExists m | generic m => trivial

/-- The lease that is read is no live one of the holder's own. -/
theorem wp_readFree (hw : Free h w) : wp (exec slot) (amongOthers h) lease.readPayload
    (fun r w => Free h w ∧ ∀ q e, r = .ok (q, e) → q.holderId = h → q.expiresAt ≤ w.clock) w := by
  refine wp_ask Free.stable hw fun w fault hw => ⟨trivial, ?_⟩
  obtain ⟨r, hr, hno⟩ | ⟨q, e, etag, ho, he, hr⟩ := w.exec_get slot fault
  · rw [hr]
    rcases r with e | ⟨content, _ | e⟩
    · exact ⟨hw, nofun⟩
    · exact ⟨hw, nofun⟩
    · cases content with
      | error source => exact ⟨hw, nofun⟩
      | ok q => exact absurd rfl (hno q e)
  · rw [hr]
    have hl : Free h (w.noteLook slot q e) := Free.stable _ _ (.single (.look w _)) hw
    obtain rfl | rfl := he
    · refine ⟨hl, fun q' e' heq hh => ?_⟩
      cases heq
      exact hw.dead _ _ ho hh
    · exact ⟨hl, nofun⟩

theorem claim_right (hw : Free lease.holderId w) : wp (exec slot) (amongOthers lease.holderId) lease.tryClaim
    (fun r w => ClaimRight lease.holderId w r) w := by
  refine wp_clock Free.stable hw fun w t hw => ?_
  refine wp_putOwn Free.stable hw (fun w hw => hw.toTidy.holds_write ⟨_, _⟩) (fun _ => trivial) (fun _ _ => trivial) ?_
  intro w e hw _
  cases e with
  | precondition m | generic m => trivial
  | alreadyExists m =>
    refine wp_bind.mpr (wp_mono ?_ (wp_readFree hw))
    rintro (e | ⟨existing, staleETag⟩) w ⟨hw, hd⟩
    · trivial
    refine wp_clock (Free.stable_dead existing) ⟨hw, hd existing staleETag rfl⟩ fun w t hw => ?_
    split
    · exact hw
    refine wp_clock Free.stable hw.1 fun w t hw => ?_
    refine wp_putOwn Free.stable hw (fun w hw => hw.toTidy.holds_write ⟨_, _⟩) (fun _ => trivial) (fun _ _ => trivial) ?_
    intro w e hw _
    cases e with
    | alreadyExists m | generic m => trivial
    | precondition m =>
      refine wp_bind.mpr (wp_mono ?_ (wp_readFree hw))
      rintro (e | ⟨nowHeld, e⟩) w ⟨hw, hd⟩
      · trivial
      · exact ⟨hw, hd nowHeld e rfl⟩

/-! ## Schedules -/

/-- A scheduler claims the lease while it has no ETag, and refreshes it with the one it has. -/
def nextCall (lease : ObjectStoreLease H) (held : Option ETag) : LeaseProgram H (LeaseResult H) :=
  held.elim (claimCall lease) (heartbeatCall lease)

/-- The ETag it goes on with, unless the call ended in an error. -/
def nextHeld : LeaseResult H → Option (Option ETag)
  | .claimed (.ok (.acquired etag _)) => some (some etag)
  | .claimed (.ok (.heldByOther _)) => some none
  | .refreshed (.ok etag) => some (some etag)
  | .refreshed (.error .leadershipLost) => some none
  | _ => none

/-- The last answer to a number of calls, or to the first one that ends in an error, and the ETag it was asked with. -/
def lastAnswer (lease : ObjectStoreLease H) : Nat → Option ETag → LeaseProgram H (Option ETag × LeaseResult H)
  | 0, held => do return (held, ← nextCall lease held)
  | n + 1, held => do
    let r ← nextCall lease held
    match nextHeld r with
    | some held => lastAnswer lease n held
    | none => return (held, r)

/-- A refusal is not for a live lease of the holder's own, and a lost lease was written by another holder after the
ETag presented, which is that of the holder's last write. -/
def AnswerRight (h : H) (w : LeaseStore H κ) : Option ETag × LeaseResult H → Prop
  | (_, .claimed (.ok (.heldByOther p))) => p.holderId = h → p.expiresAt ≤ w.clock
  | (some etag, .refreshed (.error .leadershipLost)) => ∃ e h', etag < e ∧ h' ≠ h ∧ w.writer e = some h'
  | _ => True

def Standing (h : H) (held : Option ETag) (w : LeaseStore H κ) : Prop := held.elim (Free h w) fun etag => Holds h etag w

theorem nextCall_right {held} (hw : Standing lease.holderId held w) :
    wp (exec slot) (amongOthers lease.holderId) (nextCall lease held) (fun r w => AnswerRight lease.holderId w (held, r) ∧
      ∀ held', nextHeld r = some held' → Standing lease.holderId held' w) w := by
  cases held with
  | none =>
    refine wp_bind.mpr (wp_mono ?_ (claim_right hw))
    rintro (e | ⟨etag, p⟩ | p) w hr
    · exact ⟨trivial, nofun⟩
    · refine ⟨trivial, ?_⟩
      rintro _ ⟨⟩
      exact hr
    · refine ⟨hr.2, ?_⟩
      rintro _ ⟨⟩
      exact hr.1
  | some etag =>
    refine wp_bind.mpr (wp_mono ?_ (heartbeat_right hw))
    rintro ((_ | _ | _) | etag') w hr
    · refine ⟨hr.2, ?_⟩
      rintro _ ⟨⟩
      exact hr.1
    · exact ⟨trivial, nofun⟩
    · exact ⟨trivial, nofun⟩
    · refine ⟨trivial, ?_⟩
      rintro _ ⟨⟩
      exact hr

theorem lastAnswer_right (n) {held} (hw : Standing lease.holderId held w) : wp (exec slot) (amongOthers lease.holderId)
    (lastAnswer lease n held) (fun a w => AnswerRight lease.holderId w a) w := by
  induction n generalizing held w with
  | zero => exact wp_bind.mpr (wp_mono (fun _ _ hr => hr.1) (nextCall_right hw))
  | succ n ih =>
    refine wp_bind.mpr (wp_mono (fun r w hr => ?_) (nextCall_right hw))
    cases hn : nextHeld r with
    | none => exact hr.1
    | some held' => exact ih (hr.2 held' hn)

/-- With no live lease of its own to begin with, a scheduler gets right answers up to the first error. -/
theorem answers_right_until_error (lease : ObjectStoreLease H) (slot : κ) (n : Nat)
    (start : { o : Option (Except String (LeasePayload H)) × Nat //
      ∀ p, o.1 = some (.ok p) → p.holderId = lease.holderId → p.expiresAt ≤ o.2 }) :
    wp (exec slot) (amongOthers lease.holderId) (lastAnswer lease n none)
      (fun a w => AnswerRight lease.holderId w a) (LeaseStore.initial start.1.1 start.1.2) := by
  obtain ⟨⟨object, clock⟩, hs⟩ := start
  have hun : ∀ o, Tidy (LeaseStore.unwritten o clock : LeaseStore H κ) := fun o =>
    ⟨(LeaseCalls.inv_unwritten o clock).numbered, nofun⟩
  refine lastAnswer_right n ?_
  rcases object with _ | source | payload
  · exact ⟨hun none, nofun⟩
  · exact ⟨hun (some source), nofun⟩
  · refine ⟨(hun none).write payload, fun p e ho hp => ?_⟩
    cases ho
    exact hs payload rfl hp

end Others

/-- One scheduler alone: the reply to its heartbeat is lost, and the next one finds the leadership lost; the reply to
its claim is lost, and the next one finds the lease held by another, with its own live payload. -/
theorem lost_reply_misread :
    let args : SchedulerArgs := ⟨"lease", 10, 1⟩
    let run (es : List (Option Fault ⊕ Nat)) := Runs.run (HaCluster.step args) (HaCluster.initial args none 0)
      (es.map (Sum.elim (fun fault => .step () ⟨fault, false⟩) .wait))
    let call : Option Fault ⊕ Nat := .inl none
    let lost : Option Fault ⊕ Nat := .inl (some (.replyLost ""))
    (∃ s, run [call, call, call, call, .inr 1, call, call, lost, call, .inr 1, call, call, call] = some s ∧
      s.phases () = .refreshing 1 0 3 (.done (.error .leadershipLost))) ∧
    ∃ s, run [call, lost, call, .inr 1, call, call, call, call, call] = some s ∧ s.store.clock = 1 ∧
      s.phases () = .claiming (.done (.ok (.heldByOther ⟨(), 10⟩))) :=
  ⟨⟨_, rfl, rfl⟩, ⟨_, rfl, rfl, rfl⟩⟩

end Dataglot
