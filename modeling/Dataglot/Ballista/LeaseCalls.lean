/-
What the calls on the lease keep, whatever the others do between two of their operations.

Every holder's last write has expired, except that of the holder whose payload the lease
object is. A claim replaces a payload it has seen expired, a heartbeat one of its own
holder; a conditional write finds out if the object is another one by then.
-/
import Dataglot.Ballista.Lease

namespace Dataglot
open ObjectStore LeaseStore Function
open Programs

variable {H κ : Type}

namespace LeaseStore

structure Inv (w : LeaseStore H κ) : Prop where
  numbered : ∀ content e, w.object = some (content, e) → e < w.nextETag
  /-- who wrote the object is its payload's holder -/
  named : ∀ content e h, w.object = some (content, e) →
    (w.writer e = some h ↔ ∃ p, content = .ok p ∧ p.holderId = h)
  /-- the object is the newest write -/
  newest : ∀ e h, w.writer e = some h → ∃ content e', w.object = some (content, e') ∧ e ≤ e'
  own : ∀ h p, w.last h = some p → p.holderId = h
  expired : ∀ h p, w.last h = some p → p.expiresAt ≤ w.clock ∨ ∃ e, w.object = some (.ok p, e)

/-- Time goes on, and what is written gets new ETags. -/
structure Newer (w w' : LeaseStore H κ) : Prop where
  clock : w.clock ≤ w'.clock
  nextETag : w.nextETag ≤ w'.nextETag
  writer : ∀ e, e < w.nextETag → w'.writer e = w.writer e
  object : ∀ content e, e < w.nextETag → w'.object = some (content, e) → w.object = some (content, e)

theorem Newer.refl (w : LeaseStore H κ) : Newer w w :=
  ⟨Nat.le_refl _, Nat.le_refl _, fun _ _ => rfl, fun _ _ _ h => h⟩

theorem Newer.trans {w₁ w₂ w₃ : LeaseStore H κ} (h : Newer w₁ w₂) (h' : Newer w₂ w₃) : Newer w₁ w₃ where
  clock := Nat.le_trans h.clock h'.clock
  nextETag := Nat.le_trans h.nextETag h'.nextETag
  writer e he := (h'.writer e (Nat.lt_of_lt_of_le he h.nextETag)).trans (h.writer e he)
  object content e he ho := h.object content e he (h'.object content e (Nat.lt_of_lt_of_le he h.nextETag) ho)

/-- One holder at most has a last write that has not expired. -/
def Exclusive (w : LeaseStore H κ) : Prop := ∀ h h' p p', w.last h = some p → w.last h' = some p' →
  w.clock < p.expiresAt → w.clock < p'.expiresAt → h = h'

theorem Inv.exclusive {w : LeaseStore H κ} (hi : w.Inv) : w.Exclusive := by
  intro h h' p p' hp hp' hlive hlive'
  obtain hex | ⟨e, he⟩ := hi.expired h p hp
  · omega
  obtain hex | ⟨e', he'⟩ := hi.expired h' p' hp'
  · omega
  cases he.symm.trans he'
  exact (hi.own h p hp).symm.trans (hi.own h' p hp')

/-! ## What the operations do -/

section Operations

variable {w : LeaseStore H κ} {slot : κ} {payload : LeasePayload H}

theorem Inv.wait (hi : w.Inv) (d) : (w.wait d).Inv where
  numbered := hi.numbered
  named := hi.named
  newest := hi.newest
  own := hi.own
  expired h p hp := by
    obtain he | ho := hi.expired h p hp
    · exact .inl (Nat.le_trans he (Nat.le_add_right _ _))
    · exact .inr ho

theorem newer_wait (d) : Newer w (w.wait d) :=
  ⟨Nat.le_add_right _ _, Nat.le_refl _, fun _ _ => rfl, fun _ _ _ h => h⟩

theorem Inv.of_looks {looks} (hi : w.Inv) : ({ w with looks := looks } : LeaseStore H κ).Inv :=
  ⟨hi.numbered, hi.named, hi.newest, hi.own, hi.expired⟩

def Allows (w : LeaseStore H κ) : PutMode → Prop
  | .create => w.object = none
  | .update etag => ∃ content, w.object = some (content, etag)

section Write

variable [DecidableEq H]

/-- A write may replace a payload of the same holder, or one that has expired. -/
theorem Inv.write (hi : w.Inv)
    (hf : ∀ q e, w.object = some (.ok q, e) → q.holderId = payload.holderId ∨ q.expiresAt ≤ w.clock) :
    (w.write payload).Inv where
  numbered content e he := by
    cases he
    exact Nat.lt_succ_self _
  named content e h he := by
    cases he
    have hw : (w.write payload).writer w.nextETag = some payload.holderId := update_self ..
    rw [hw]
    simp
  newest e h he := by
    refine ⟨_, _, rfl, ?_⟩
    by_cases hne : e = w.nextETag
    · exact Nat.le_of_eq hne
    · have hol : w.writer e = some h := (update_of_ne hne ..).symm.trans he
      obtain ⟨content, e', ho, hle⟩ := hi.newest e h hol
      exact Nat.le_of_lt (Nat.lt_of_le_of_lt hle (hi.numbered content e' ho))
  own h p hp := by
    by_cases hh : h = payload.holderId
    · subst hh
      cases (update_self ..).symm.trans hp
      rfl
    · exact hi.own h p ((update_of_ne hh ..).symm.trans hp)
  expired h p hp := by
    by_cases hh : h = payload.holderId
    · subst hh
      cases (update_self ..).symm.trans hp
      exact .inr ⟨_, rfl⟩
    · have hol : w.last h = some p := (update_of_ne hh ..).symm.trans hp
      left
      obtain hex | ⟨e, he⟩ := hi.expired h p hol
      · exact hex
      · obtain hs | hex := hf p e he
        · exact absurd ((hi.own h p hol).symm.trans hs) hh
        · exact hex

theorem newer_write : Newer w (w.write payload) where
  clock := Nat.le_refl _
  nextETag := Nat.le_succ _
  writer e he := update_of_ne (Nat.ne_of_lt he) ..
  object content e he ho := by
    cases ho
    exact absurd he (Nat.lt_irrefl _)

theorem put_eq (mode) (payload) : (∃ e, w.put mode payload = (.error e, w) ∧ ¬ w.Allows mode) ∨
    (w.Allows mode ∧ w.put mode payload = (.ok w.nextETag, w.write payload)) := by
  cases mode with
  | create =>
    dsimp only [put, Allows]
    cases w.object with
    | none => exact .inr ⟨rfl, rfl⟩
    | some object => exact .inl ⟨_, rfl, nofun⟩
  | update etag =>
    dsimp only [put, Allows]
    cases w.object with
    | none => exact .inl ⟨_, rfl, nofun⟩
    | some object =>
      obtain ⟨content, current⟩ := object
      by_cases hs : current = etag
      · subst hs
        exact .inr ⟨⟨content, rfl⟩, if_pos rfl⟩
      · refine .inl ⟨_, if_neg hs, ?_⟩
        rintro ⟨_, ho⟩
        cases ho
        exact hs rfl

end Write

section Look

variable [DecidableEq κ]

theorem Inv.noteClock (hi : w.Inv) (slot) : (w.noteClock slot).Inv := by
  unfold LeaseStore.noteClock
  split
  · exact hi.of_looks
  · exact hi

theorem noteClock_eq (w : LeaseStore H κ) (slot) :
    ∃ look, w.noteClock slot = { w with looks := update w.looks slot look } := by
  unfold noteClock
  split
  · exact ⟨_, rfl⟩
  · exact ⟨w.looks slot, by rw [update_eq_self]⟩

end Look

variable [DecidableEq H] [DecidableEq κ]

theorem exec_put (slot) (fault) (mode) (payload) :
    (∃ e, w.exec slot fault (.put mode payload) = (.error e, w) ∧ (w.Allows mode → ∃ m, e = .generic m)) ∨
    (w.Allows mode ∧ ∃ r, w.exec slot fault (.put mode payload) = (r, w.write payload) ∧
      (r = .ok (some w.nextETag) ∨ r = .ok none ∨ ∃ m, r = .error (.generic m))) := by
  dsimp only [exec]
  obtain ⟨e, hp, hn⟩ | ⟨ha, hp⟩ := w.put_eq mode payload
  · left
    rw [hp]
    cases fault with
    | none => exact ⟨e, rfl, fun ha => absurd ha hn⟩
    | some fault => cases fault <;> exact ⟨_, rfl, fun ha => absurd ha hn⟩
  · rw [hp]
    cases fault with
    | none => exact .inr ⟨ha, _, rfl, .inl rfl⟩
    | some fault =>
      cases fault with
      | unreachable message => exact .inl ⟨_, rfl, fun _ => ⟨message, rfl⟩⟩
      | replyLost message => exact .inr ⟨ha, _, rfl, .inr (.inr ⟨message, rfl⟩)⟩
      | noETag => exact .inr ⟨ha, _, rfl, .inr (.inl rfl)⟩

theorem exec_get (slot) (fault) :
    (∃ r, w.exec slot fault .get = (r, w) ∧ ∀ q e, r ≠ .ok (.ok q, some e)) ∨
    ∃ q e etag, w.object = some (.ok q, e) ∧ (etag = some e ∨ etag = none) ∧
      w.exec slot fault .get = (.ok (.ok q, etag), w.noteLook slot q e) := by
  have hg : ∀ withETag, (∃ r, w.get slot withETag = (r, w) ∧ ∀ q e, r ≠ .ok (.ok q, some e)) ∨
      ∃ q e etag, w.object = some (.ok q, e) ∧ (etag = some e ∨ etag = none) ∧
        w.get slot withETag = (.ok (.ok q, etag), w.noteLook slot q e) := by
    intro withETag
    unfold get
    split
    next => exact .inl ⟨_, rfl, nofun⟩
    next source e ho => exact .inl ⟨_, rfl, nofun⟩
    next q e ho =>
      refine .inr ⟨q, e, _, ho, ?_, rfl⟩
      cases withETag
      · exact .inr rfl
      · exact .inl rfl
  match fault with
  | none => exact hg true
  | some .noETag => exact hg false
  | some (.unreachable message) => exact .inl ⟨_, rfl, nofun⟩
  | some (.replyLost message) => exact .inl ⟨_, rfl, nofun⟩

end Operations

end LeaseStore

/-! ## Terms -/

inductive CallKind
  | claim
  | heartbeat
  deriving DecidableEq

/-- What a call knows when its conditional write takes effect: a claim has seen the payload there expired, a
heartbeat replaces what its own holder wrote, after which nobody else has written. -/
def Justified (w : LeaseStore H κ) (slot : κ) : CallKind → LeaseOp H → Prop
  | .claim, .put (.update etag) _ =>
    ∃ q t, w.looks slot = some ⟨q, etag, some t⟩ ∧ q.expiresAt ≤ t ∧ w.object = some (.ok q, etag)
  | .heartbeat, .put (.update etag) payload =>
    w.writer etag = some payload.holderId ∧ ∀ e h, etag < e → w.writer e = some h → h = payload.holderId
  | _, _ => True

def callTerms (kind : CallKind) (slot : κ) : Terms (LeaseStore H κ) (LeaseOp H) LeaseOp.Reply where
  rely w w' := w.Inv → w'.Inv ∧ w.Newer w' ∧ w'.looks slot = w.looks slot
  guar w op _ w' := w.Inv → w'.Inv ∧ w.Newer w' ∧ (∀ j, j ≠ slot → w'.looks j = w.looks j) ∧
    (w.nextETag < w'.nextETag → Justified w slot kind op)
  refl w hinv := ⟨hinv, .refl w, rfl⟩
  trans h h' hinv := by
    obtain ⟨hinv₂, hnewer, hlooks⟩ := h hinv
    obtain ⟨hinv₃, hnewer', hlooks'⟩ := h' hinv₂
    exact ⟨hinv₃, hnewer.trans hnewer', hlooks'.trans hlooks⟩

/-- A heartbeat may present the ETag: its holder wrote it. -/
structure Owns (h : H) (etag : ETag) (w : LeaseStore H κ) : Prop where
  inv : w.Inv
  numbered : etag < w.nextETag
  writer : w.writer etag = some h

structure Saw (slot : κ) (q : LeasePayload H) (etag : ETag) (w : LeaseStore H κ) : Prop where
  inv : w.Inv
  numbered : etag < w.nextETag
  object : ∀ content, w.object = some (content, etag) → content = .ok q
  look : w.looks slot = some ⟨q, etag, none⟩

structure FoundExpired (slot : κ) (q : LeasePayload H) (etag : ETag) (w : LeaseStore H κ) : Prop where
  inv : w.Inv
  numbered : etag < w.nextETag
  object : ∀ content, w.object = some (content, etag) → content = .ok q
  look : ∃ t, w.looks slot = some ⟨q, etag, some t⟩ ∧ q.expiresAt ≤ t ∧ t ≤ w.clock

section Stable

variable {kind : CallKind} {slot : κ} {q : LeasePayload H} {etag : ETag} {h : H}

theorem inv_stable : (callTerms (H := H) kind slot).Stable Inv := fun _ _ hr hi => (hr hi).1

theorem Owns.newer {w w' : LeaseStore H κ} (ho : Owns h etag w) (hi : w'.Inv) (hn : w.Newer w') : Owns h etag w' :=
  ⟨hi, Nat.lt_of_lt_of_le ho.numbered hn.nextETag, (hn.writer etag ho.numbered).trans ho.writer⟩

theorem Owns.stable : (callTerms kind slot).Stable (Owns h etag) := by
  intro w w' hr ho
  obtain ⟨hi, hn, -⟩ := hr ho.inv
  exact ho.newer hi hn

theorem Saw.stable : (callTerms kind slot).Stable (Saw slot q etag) := by
  intro w w' hr hs
  obtain ⟨hi, hn, hl⟩ := hr hs.inv
  exact ⟨hi, Nat.lt_of_lt_of_le hs.numbered hn.nextETag,
    fun content ho => hs.object content (hn.object content etag hs.numbered ho),
    hl.trans hs.look⟩

theorem FoundExpired.stable : (callTerms kind slot).Stable (FoundExpired slot q etag) := by
  intro w w' hr hf
  obtain ⟨hi, hn, hl⟩ := hr hf.inv
  obtain ⟨t, hlo, he, ht⟩ := hf.look
  exact ⟨hi, Nat.lt_of_lt_of_le hf.numbered hn.nextETag,
    fun content ho => hf.object content (hn.object content etag hf.numbered ho),
    t, hl.trans hlo, he, Nat.le_trans ht hn.clock⟩

end Stable

/-! ## Rules -/

theorem guar_looks [DecidableEq κ] {kind slot} {w : LeaseStore H κ} {op r} (look) :
    (callTerms kind slot).guar w op r { w with looks := update w.looks slot look } :=
  fun hi => ⟨hi.of_looks, ⟨Nat.le_refl _, Nat.le_refl _, fun _ _ => rfl, fun _ _ _ h => h⟩,
    fun _ hj => update_of_ne hj .., fun hlt => absurd hlt (Nat.lt_irrefl _)⟩

theorem guar_refl {kind slot} {w : LeaseStore H κ} {op r} : (callTerms kind slot).guar w op r w :=
  fun hi => ⟨hi, .refl w, fun _ _ => rfl, fun hlt => absurd hlt (Nat.lt_irrefl _)⟩

section Rules

variable [DecidableEq H] [DecidableEq κ] {kind : CallKind} {slot : κ} {w : LeaseStore H κ} {P : LeaseStore H κ → Prop}
  {β : Type} {post : β → LeaseStore H κ → Prop}

theorem wp_utcNow {f : Nat → LeaseProgram H β} (hs : (callTerms kind slot).Stable P) (hP : P w)
    (h : ∀ w, P w → wp (exec slot) (callTerms kind slot) (f w.clock) post (w.noteClock slot)) :
    wp (exec slot) (callTerms kind slot) (utcNow >>= f) post w := by
  refine wp_ask hs hP fun w fault hP => ⟨?_, h w hP⟩
  obtain ⟨look, hl⟩ := w.noteClock_eq slot
  show (callTerms kind slot).guar w .now w.clock (w.noteClock slot)
  rw [hl]
  exact guar_looks look

theorem wp_freshPayload (lease : ObjectStoreLease H) (hs : (callTerms kind slot).Stable P)
    (hk : ∀ w, P w → P (w.noteClock slot)) (hP : P w) : wp (exec slot) (callTerms kind slot) lease.freshPayload
      (fun payload w => payload.holderId = lease.holderId ∧ P w) w :=
  wp_utcNow hs hP fun w hP => ⟨rfl, hk w hP⟩

/-- A write that takes effect is justified; one that does not changes nothing. -/
theorem wp_putOpts {mode payload} {f : Except OsError (Option ETag) → LeaseProgram H β}
    (hs : (callTerms kind slot).Stable P) (hP : P w)
    (hw : ∀ w r, P w → w.Allows mode → (∀ e, r = .ok (some e) → e = w.nextETag) →
      (w.write payload).Inv ∧ Justified w slot kind (.put mode payload) ∧
      wp (exec slot) (callTerms kind slot) (f r) post (w.write payload))
    (hf : ∀ w e, P w → wp (exec slot) (callTerms kind slot) (f (.error e)) post w) :
    wp (exec slot) (callTerms kind slot) (putOpts mode payload >>= f) post w := by
  refine wp_ask hs hP fun w fault hP => ?_
  obtain ⟨e, h, -⟩ | ⟨ha, r, h, hr⟩ := w.exec_put slot fault mode payload
  · rw [h]
    exact ⟨guar_refl, hf w e hP⟩
  · rw [h]
    obtain ⟨hi, hj, hre⟩ := hw w r hP ha fun e he => by
      subst he
      obtain he | he | ⟨m, he⟩ := hr <;> cases he
      rfl
    exact ⟨fun _ => ⟨hi, newer_write, fun _ _ => rfl, fun _ => hj⟩, hre⟩

theorem wp_readPayload (lease : ObjectStoreLease H) (hi : w.Inv) :
    wp (exec slot) (callTerms kind slot) lease.readPayload
      (fun r w => w.Inv ∧ ∀ q e, r = .ok (q, e) → Saw slot q e w) w := by
  refine wp_ask inv_stable hi fun w fault hi => ?_
  obtain ⟨r, h, hr⟩ | ⟨q, e, etag, ho, he, h⟩ := w.exec_get slot fault
  · rw [h]
    refine ⟨guar_refl, ?_⟩
    match r with
    | .error e => exact ⟨hi, nofun⟩
    | .ok (_, none) => exact ⟨hi, nofun⟩
    | .ok (.error source, some e) => exact ⟨hi, nofun⟩
    | .ok (.ok q, some e) => exact absurd rfl (hr q e)
  · rw [h]
    refine ⟨guar_looks _, ?_⟩
    obtain rfl | rfl := he
    · refine ⟨hi.of_looks, fun q' e' heq => ?_⟩
      cases heq
      exact ⟨hi.of_looks, hi.numbered _ _ ho, fun content hc => by cases ho.symm.trans hc; rfl,
        update_self ..⟩
    · exact ⟨hi.of_looks, nofun⟩

end Rules

/-! ## The calls -/

section Calls

variable [DecidableEq H] [DecidableEq κ] {slot : κ} {w : LeaseStore H κ} {lease : ObjectStoreLease H}

/-- A claim that acquires the lease gets the ETag of its own write. -/
def ClaimPost (h : H) (r : Except LeaseError (ClaimOutcome H)) (w : LeaseStore H κ) : Prop :=
  w.Inv ∧ ∀ etag payload, r = .ok (.acquired etag payload) → Owns h etag w

def HeartbeatPost (h : H) (r : Except LeaseError ETag) (w : LeaseStore H κ) : Prop :=
  w.Inv ∧ ∀ etag, r = .ok etag → Owns h etag w

omit [DecidableEq κ] in
theorem owns_write {payload} (hi : (w.write payload).Inv) : Owns payload.holderId w.nextETag (w.write payload) :=
  ⟨hi, Nat.lt_succ_self _, update_self ..⟩

omit [DecidableEq H] in
theorem acquired_of_requireETag {etag op} {payload payload' : LeasePayload H} {e}
    (h : ((requireETag etag op).map fun etag => ClaimOutcome.acquired etag payload) = .ok (.acquired e payload')) :
    etag = some e := by
  cases etag with
  | none => cases h
  | some etag =>
    cases h
    rfl

theorem wp_stealReply {payload r} (hi : w.Inv) (ho : ∀ e, r = .ok (some e) → Owns lease.holderId e w) :
    wp (exec slot) (callTerms .claim slot) (lease.stealReply payload r) (ClaimPost lease.holderId) w := by
  match r with
  | .ok etag =>
    refine ⟨hi, fun e payload' he => ho e ?_⟩
    rw [acquired_of_requireETag he]
  | .error (.precondition message) =>
    refine wp_bind.mpr (wp_mono ?_ (wp_readPayload lease hi))
    rintro (e | ⟨nowHeld, e⟩) w ⟨hi, -⟩
    · exact ⟨hi, nofun⟩
    · exact ⟨hi, nofun⟩
  | .error (.alreadyExists message) => exact ⟨hi, nofun⟩
  | .error (.generic message) => exact ⟨hi, nofun⟩

theorem wp_steal {q etag} (hf : FoundExpired slot q etag w) :
    wp (exec slot) (callTerms .claim slot) (lease.steal etag) (ClaimPost lease.holderId) w := by
  have hk : ∀ w, FoundExpired slot q etag w → FoundExpired slot q etag (w.noteClock slot) := by
    intro w hf
    obtain ⟨t, hl, -⟩ := hf.look
    unfold noteClock
    rw [hl]
    exact hf
  refine wp_bind.mpr (wp_mono ?_ (wp_freshPayload lease FoundExpired.stable hk hf))
  rintro payload w ⟨hh, hf⟩
  refine wp_putOpts FoundExpired.stable hf (fun w r hf ha hr => ?_)
    (fun w e hf => wp_stealReply hf.inv nofun)
  obtain ⟨content, ho⟩ := ha
  cases hf.object content ho
  obtain ⟨t, hl, hex, ht⟩ := hf.look
  have hi : (w.write payload).Inv := by
    refine hf.inv.write fun q' e' ho' => .inr ?_
    cases ho.symm.trans ho'
    exact Nat.le_trans hex ht
  refine ⟨hi, ⟨q, t, hl, hex, ho⟩, wp_stealReply hi fun e he => ?_⟩
  rw [hr e he, ← hh]
  exact owns_write hi

theorem wp_claimExisting (hi : w.Inv) :
    wp (exec slot) (callTerms .claim slot) lease.claimExisting (ClaimPost lease.holderId) w := by
  refine wp_bind.mpr (wp_mono ?_ (wp_readPayload lease hi))
  rintro (e | ⟨existing, staleETag⟩) w ⟨hi, hs⟩
  · exact ⟨hi, nofun⟩
  · refine wp_utcNow Saw.stable (hs existing staleETag rfl) fun w hs => ?_
    have hc : w.noteClock slot =
        { w with looks := update w.looks slot (some ⟨existing, staleETag, some w.clock⟩) } := by
      unfold noteClock
      rw [hs.look]
    rw [hc]
    split
    next => exact ⟨hs.inv.of_looks, nofun⟩
    next he =>
      refine wp_steal ⟨hs.inv.of_looks, hs.numbered, hs.object, w.clock, update_self .., ?_, Nat.le_refl _⟩
      exact Nat.le_of_not_lt he

theorem wp_tryClaim (hi : w.Inv) :
    wp (exec slot) (callTerms .claim slot) lease.tryClaim (ClaimPost lease.holderId) w := by
  refine wp_bind.mpr (wp_mono ?_ (wp_freshPayload lease inv_stable (fun w hi => hi.noteClock slot) hi))
  rintro payload w ⟨hh, hi⟩
  have hre : ∀ w r, w.Inv → (∀ e, r = .ok (some e) → Owns lease.holderId e w) →
      wp (exec slot) (callTerms .claim slot) (lease.createReply payload r) (ClaimPost lease.holderId) w := by
    intro w r hi how
    match r with
    | .ok etag =>
      refine ⟨hi, fun e payload' he => how e ?_⟩
      rw [acquired_of_requireETag he]
    | .error (.alreadyExists message) => exact wp_claimExisting hi
    | .error (.precondition message) => exact ⟨hi, nofun⟩
    | .error (.generic message) => exact ⟨hi, nofun⟩
  refine wp_putOpts inv_stable hi (fun w r hi ha hr => ?_) (fun w e hi => hre w _ hi nofun)
  have hi' : (w.write payload).Inv := hi.write fun q e ho => absurd (ha.symm.trans ho) nofun
  refine ⟨hi', trivial, hre _ r hi' fun e he => ?_⟩
  rw [hr e he, ← hh]
  exact owns_write hi'

theorem heartbeatReply_eq_ok {r e} (h : ObjectStoreLease.heartbeatReply r = .ok e) : r = .ok (some e) := by
  match r with
  | .ok none => cases h
  | .ok (some e') =>
    cases h
    rfl
  | .error (.precondition message) => cases h
  | .error (.alreadyExists message) => cases h
  | .error (.generic message) => cases h

theorem wp_heartbeat {etag} (how : Owns lease.holderId etag w) :
    wp (exec slot) (callTerms .heartbeat slot) (lease.heartbeat etag) (HeartbeatPost lease.holderId) w := by
  have hk : ∀ w, Owns lease.holderId etag w → Owns lease.holderId etag (w.noteClock slot) := by
    intro w how
    refine ⟨how.inv.noteClock slot, ?_, ?_⟩ <;> unfold noteClock <;> split
    · exact how.numbered
    · exact how.numbered
    · exact how.writer
    · exact how.writer
  refine wp_bind.mpr (wp_mono ?_ (wp_freshPayload lease Owns.stable hk how))
  rintro payload w ⟨hh, how⟩
  refine wp_putOpts Owns.stable how (fun w r how ha hr => ?_) (fun w e how => ⟨how.inv, fun etag' h => ?_⟩)
  · obtain ⟨content, ho⟩ := ha
    obtain ⟨q, rfl, hq⟩ := (how.inv.named content etag _ ho).mp how.writer
    have hi : (w.write payload).Inv := by
      refine how.inv.write fun q' e' ho' => .inl ?_
      cases ho.symm.trans ho'
      exact hq.trans hh.symm
    refine ⟨hi, ⟨hh ▸ how.writer, fun e h hlt hw => ?_⟩, hi, fun e he => ?_⟩
    · obtain ⟨content, e', ho', hle⟩ := how.inv.newest e h hw
      cases ho.symm.trans ho'
      exact absurd hlt (Nat.not_lt.mpr hle)
    · rw [hr e (heartbeatReply_eq_ok he), ← hh]
      exact owns_write hi
  · cases heartbeatReply_eq_ok h

end Calls

end Dataglot
