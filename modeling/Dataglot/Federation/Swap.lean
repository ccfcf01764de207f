/-
What one overwrite does, whatever fails. It only works on its own staging and parked names
and on the target; when it drops the parked table after its promote, the committed table
is nowhere but at the target; and it reports success only if it was promoted.

Meanwhile the sweep may take tables away, and nobody else writes.
-/
import Dataglot.Federation.Warehouse
import Dataglot.Library.Runs

namespace Dataglot
open Iceberg
open Programs

namespace Materialize

variable {A : Arrow} {ι : Type} [DecidableEq ι] {target : TableIdent} {token : Name}

def IsOverwriteOp (target : TableIdent) (token : Name) : Op A → Prop
  | .createTable n _ => n = stagingOf target token
  | .commitAppend n _ => n = stagingOf target token
  | .renameTable src dst =>
    (src = target ∧ dst = parkedOf target token) ∨ (src = parkedOf target token ∧ dst = target) ∨
      (src = stagingOf target token ∧ dst = target)
  | .dropTable n purpose =>
    (n = stagingOf target token ∧ purpose = .stagingCleanup) ∨
      (n = parkedOf target token ∧ (purpose = .preClean ∨ purpose = .parked))
  | _ => True

/-- The committed table is at the target, if it is anywhere. -/
def AtTarget (target : TableIdent) (w : Warehouse A ι) : Prop :=
  ∀ t n, w.committed = some t → w.lookup n = some t → n = target

/-- The overwrite in a slot, and a sweep that takes tables away. -/
def swapTerms (target : TableIdent) (token : Name) (i : ι) : Terms (Warehouse A ι) (Op A) Op.Reply where
  rely w w' := w'.committed = w.committed ∧ w'.replaced i = w.replaced i ∧
    ∀ n t, w'.lookup n = some t → w.lookup n = some t
  guar w op _ _ := IsOverwriteOp target token op ∧ (op = .dropTable (parkedOf target token) .parked → AtTarget target w)
  refl _ := ⟨rfl, rfl, fun _ _ h => h⟩
  trans h h' := ⟨h'.1.trans h.1, h'.2.1.trans h.2.1, fun n t hn => h.2.2 n t (h'.2.2 n t hn)⟩

/-! ## Before the promote -/

/-- What an overwrite asks before its promote, or once that has failed. -/
def IsUnpromotedOp (target : TableIdent) (token : Name) (op : Op A) : Prop :=
  IsOverwriteOp target token op ∧ op ≠ .dropTable (parkedOf target token) .parked

section Does

variable {table : Name} {expected : ExpectedVersion} {targetExists : Bool} {error : DataglotError}

theorem unpromoted_read {op : Op A} (h : op.isRead = true) : IsUnpromotedOp target token op := by
  cases op <;> first | exact ⟨trivial, nofun⟩ | cases h

theorem unpromoted_cleanup :
    IsUnpromotedOp (A := A) target token (.dropTable (stagingOf target token) .stagingCleanup) :=
  ⟨.inl ⟨rfl, rfl⟩, by simp⟩

theorem unpromoted_rollback : IsUnpromotedOp (A := A) target token (.renameTable (parkedOf target token) target) :=
  ⟨.inr (.inl ⟨rfl, rfl⟩), nofun⟩

theorem unpromoted_promote : IsUnpromotedOp (A := A) target token (.renameTable (stagingOf target token) target) :=
  ⟨.inr (.inr ⟨rfl, rfl⟩), nofun⟩

theorem does_cleanup : (bestEffortDrop (stagingOf target token) .stagingCleanup : Program A Unit).Does
    (IsUnpromotedOp target token) fun _ => True :=
  ⟨unpromoted_cleanup, fun _ => trivial⟩

theorem does_giveUp {β : Type} (error) :
    (bestEffortDrop (stagingOf target token) .stagingCleanup >>= fun _ => pure (.error error) :
      Program A (Except DataglotError β)).Does (IsUnpromotedOp target token) fun r => r.isOk = false :=
  ⟨unpromoted_cleanup, fun _ => rfl⟩

theorem does_clearLeftover {n purpose} (h : IsUnpromotedOp (A := A) target token (.dropTable n purpose)) :
    (clearLeftover n purpose : Program A Unit).Does (IsUnpromotedOp target token) fun _ => True := by
  refine ⟨unpromoted_read rfl, fun r => ?_⟩
  dsimp only [Prog.bind]
  split
  · exact ⟨h, fun _ => trivial⟩
  · trivial

theorem does_writeBatches (annotated : A.Schema) : ∀ stream rows written,
    (writeBatches annotated stream rows written).Does (IsUnpromotedOp target token) fun _ => True
  | [], _, _ => trivial
  | .error _ :: _, _, _ => trivial
  | .ok batch :: rest, rows, written => by
    unfold writeBatches
    split
    · exact does_writeBatches annotated rest rows written
    · split
      · trivial
      · refine ⟨unpromoted_read rfl, fun r => ?_⟩
        cases r with
        | error e => trivial
        | ok => exact does_writeBatches annotated rest _ _

theorem does_commitFiles (written : List A.Batch) (dataFiles rows) :
    (commitFiles (stagingOf target token) written dataFiles rows).Does (IsUnpromotedOp target token) fun _ => True := by
  unfold commitFiles
  split
  · trivial
  · refine ⟨unpromoted_read rfl, fun r => ?_⟩
    cases r with
    | error e => trivial
    | ok =>
      refine ⟨⟨rfl, nofun⟩, fun r => ?_⟩
      cases r <;> trivial

theorem does_writeStreamAndCommit (stream) (annotated : A.Schema) :
    (writeStreamAndCommit (stagingOf target token) stream annotated).Does (IsUnpromotedOp target token)
      fun _ => True := by
  refine ⟨unpromoted_read rfl, fun r => ?_⟩
  cases r with
  | error e => trivial
  | ok =>
    refine ⟨unpromoted_read rfl, fun r => ?_⟩
    cases r with
    | error e => trivial
    | ok =>
      refine (does_writeBatches annotated stream 0 []).bind fun r _ => ?_
      match r with
      | .error e => trivial
      | .ok (rows, written) =>
        refine ⟨unpromoted_read rfl, fun r => ?_⟩
        cases r with
        | error e => trivial
        | ok dataFiles => exact does_commitFiles written dataFiles rows

theorem does_release : (release (parkedOf target token) target (stagingOf target token) error : Program A _).Does
    (IsUnpromotedOp target token) fun r => r = .error error :=
  ⟨unpromoted_rollback, fun _ => does_cleanup.bind fun _ _ => rfl⟩

theorem does_park : (park table (parkedOf target token) target (stagingOf target token) targetExists expected :
    Program A _).Does (IsUnpromotedOp target token) fun _ => True := by
  have hr : ∀ error, (release (parkedOf target token) target (stagingOf target token) error : Program A _).Does
      (IsUnpromotedOp target token) fun _ => True := fun _ => does_release.mono fun _ _ => trivial
  unfold park
  split
  · refine ⟨⟨.inl ⟨rfl, rfl⟩, nofun⟩, fun r => ?_⟩
    cases r with
    | error e => exact does_cleanup.bind fun _ _ => trivial
    | ok =>
      cases expected with
      | any | absent => trivial
      | snapshot base =>
        refine ⟨unpromoted_read rfl, fun r => ?_⟩
        match r with
        | .error e => exact hr _
        | .ok t =>
          dsimp only [Prog.bind]
          split
          · trivial
          · exact hr _
  · trivial

theorem does_rollBack : (rollBack (parkedOf target token) target targetExists : Program A _).Does
    (IsUnpromotedOp target token) fun _ => True := by
  unfold rollBack
  split
  · exact ⟨unpromoted_rollback, fun _ => trivial⟩
  · trivial

theorem does_promoteFailed (e) : (promoteFailed table target expected e : Program A _).Does
    (IsUnpromotedOp target token) fun r => r.isOk = false := by
  unfold promoteFailed
  cases expected with
  | any | snapshot base => rfl
  | absent =>
    refine ⟨unpromoted_read rfl, fun r => ?_⟩
    dsimp only [Prog.bind]
    split <;> rfl

end Does

/-! ## The whole overwrite -/

section Outline

variable {i : ι} {admits : Choice → Prop} {table : Name} {expected : ExpectedVersion} {targetExists : Bool}
  {w : Warehouse A ι}

omit [DecidableEq ι] in
theorem guar_of_unpromoted {op} (h : IsUnpromotedOp target token op) (w r)
    (w' : Warehouse A ι) : (swapTerms target token i).guar w op r w' :=
  ⟨h.1, fun hop => absurd hop h.2⟩

theorem wp_unpromoted {α : Type} {R} {p : Program A α} (h : p.Does (IsUnpromotedOp target token) R) :
    wp (Warehouse.step target admits i) (swapTerms target token i) p (fun a _ => R a) w :=
  wp_of_does (fun w _ _ hop => guar_of_unpromoted hop w _ _) h

omit [DecidableEq ι] in
theorem stable_promoted : (swapTerms (A := A) target token i).Stable fun w =>
    AtTarget target w ∧ (w.replaced i).isSome = true := by
  rintro w w' ⟨hc, hr, hl⟩ ⟨hat, hs⟩
  refine ⟨fun t n ht hn => hat t n (hc ▸ ht) (hl n t hn), ?_⟩
  rw [hr]
  exact hs

theorem wp_fails {α : Type} {p : Program A (Except DataglotError α)}
    (h : p.Does (IsUnpromotedOp target token) fun r => r.isOk = false) :
    wp (Warehouse.step target admits i) (swapTerms target token i) p
      (fun r w => r.isOk = true → (w.replaced i).isSome = true) w :=
  wp_mono (fun _ _ hr hok => absurd (hr.symm.trans hok) Bool.false_ne_true) (wp_unpromoted h)

theorem atTarget_renamed {t} (hs : w.lookup (stagingOf target token) = some t) :
    AtTarget target (w.renamed target i (stagingOf target token) target) := by
  intro u n hu hn
  rw [Warehouse.renamed_staging.1, hs] at hu
  cases hu
  by_contra hne
  rw [Warehouse.lookup_renamed hs, if_neg hne] at hn
  split at hn
  next => cases hn
  next hns => exact hns (w.catalog.identified.inj hn hs rfl)

theorem wp_promote : wp (Warehouse.step target admits i) (swapTerms target token i)
    (promote table (parkedOf target token) target (stagingOf target token) targetExists expected : Program A _)
    (fun r w => r.isOk = true → (w.replaced i).isSome = true) w := by
  refine Warehouse.wp_renameTable (P := fun _ => True) (fun _ _ _ h => h) trivial ?_ ?_
  · intro w t _ hs _
    refine ⟨guar_of_unpromoted unpromoted_promote _ _ _, ?_⟩
    have hp : AtTarget target (w.renamed target i (stagingOf target token) target) ∧
        ((w.renamed target i (stagingOf target token) target).replaced i).isSome = true := by
      refine ⟨atTarget_renamed hs, ?_⟩
      rw [Warehouse.renamed_staging.2, Function.update_self]
      rfl
    cases targetExists with
    | false => exact fun _ => hp.2
    | true =>
      refine Warehouse.wp_dropTable stable_promoted hp ?_ ?_
      · intro w t hw _
        exact ⟨⟨.inr ⟨rfl, .inr rfl⟩, fun _ => hw.1⟩, fun _ => hw.2⟩
      · intro w e hw
        exact ⟨⟨.inr ⟨rfl, .inr rfl⟩, fun _ => hw.1⟩, fun _ => hw.2⟩
  · intro w e _ _
    refine ⟨guar_of_unpromoted unpromoted_promote _ _ _, ?_⟩
    exact wp_fails (does_rollBack.bind fun _ _ => does_cleanup.bind fun _ _ => does_promoteFailed e)

theorem wp_swap : wp (Warehouse.step target admits i) (swapTerms target token i)
    (swap table (parkedOf target token) target (stagingOf target token) expected : Program A _)
    (fun r w => r.isOk = true → (w.replaced i).isSome = true) w := by
  refine Warehouse.wp_read (P := fun _ => True) rfl (fun _ _ _ h => h) trivial fun w r _ => ?_
  refine ⟨guar_of_unpromoted (unpromoted_read rfl) _ _ _, ?_⟩
  match r with
  | .error e => exact wp_fails (does_giveUp _)
  | .ok targetExists =>
    dsimp only [Prog.bind]
    split
    · exact wp_fails (does_giveUp _)
    · refine wp_bind.mpr (wp_mono ?_ (wp_unpromoted does_park))
      intro r w _
      cases r with
      | error e => exact fun hok => by cases hok
      | ok => exact wp_promote

theorem wp_blueGreenPromote : wp (Warehouse.step target admits i) (swapTerms target token i)
    (blueGreenPromote target.ns target.name (stagingOf target token) token expected : Program A _)
    (fun r w => r.isOk = true → (w.replaced i).isSome = true) w :=
  wp_bind.mpr (wp_mono (fun _ _ _ => wp_swap) (wp_unpromoted (does_clearLeftover ⟨.inr ⟨rfl, .inl rfl⟩, by simp⟩)))

theorem wp_overwrite (o) (w : Warehouse A ι) :
    wp (Warehouse.step ⟨o.ns, o.table⟩ admits i) (swapTerms ⟨o.ns, o.table⟩ o.token i)
      (overwriteTableStreamChecked o) (fun r w => r.isOk = true → (w.replaced i).isSome = true) w := by
  unfold overwriteTableStreamChecked
  split
  next e _ => exact fun hok => by cases hok
  next icebergSchema _ =>
  split
  next e _ => exact fun hok => by cases hok
  next annotated _ =>
  refine wp_bind.mpr (wp_mono ?_ (wp_unpromoted (does_clearLeftover unpromoted_cleanup)))
  intro _ w _
  have hc : IsUnpromotedOp (A := A) ⟨o.ns, o.table⟩ o.token (.createTable o.staging icebergSchema) := ⟨rfl, nofun⟩
  refine Warehouse.wp_createTable (P := fun _ => True) (fun _ _ _ h => h) trivial ?_ ?_
  · intro w nowMs _ _
    refine ⟨guar_of_unpromoted hc _ _ _, wp_bind.mpr (wp_mono ?_ (wp_unpromoted (does_writeStreamAndCommit _ _)))⟩
    intro r w _
    match r with
    | .error e => exact wp_fails (does_giveUp e)
    | .ok (dataFiles, rows) =>
      refine wp_bind.mpr (wp_mono ?_ wp_blueGreenPromote)
      intro r w hr
      cases r with
      | error e => exact fun hok => by cases hok
      | ok => exact fun _ => hr rfl
  · intro w e _
    exact ⟨guar_of_unpromoted hc _ _ _, fun hok => by cases hok⟩

end Outline

/-! ## What readers see of an overwrite that runs alone -/

abbrev Alone (A : Arrow) : Type := Pool Unit (Warehouse A Unit) (Op A) Op.Reply (Except DataglotError MaterializeOutcome)

namespace Alone

def initial (C : Catalog A) (o : Overwrite A) : Alone A :=
  ⟨⟨C, C.lookup o.target, fun _ => none⟩, fun _ => some (overwriteTableStreamChecked o)⟩

def step (target : TableIdent) (s : Alone A) (c : Choice) : Option (Alone A) :=
  s.run (Warehouse.step target fun _ => True) () ⟨c, trivial⟩

def Sound (o : Overwrite A) (s : Alone A) : Prop :=
  Pool.Sound (Warehouse.step o.target fun _ => True) (fun _ => swapTerms o.target o.token ())
    (fun _ r w => r.isOk = true → (w.replaced ()).isSome = true) s

theorem Sound.step {o} {s s' : Alone A} {c} (h : s.Sound o)
    (hstep : Alone.step o.target s c = some s') : s'.Sound o := by
  refine Pool.Sound.run ?_ (fun i j hij => absurd rfl hij) h hstep
  intro _ r w w' hr hp hok
  rw [hr.2.1]
  exact hp hok

end Alone

/-- The target resolves: to the old version before the promote, to the promoted one after it. -/
def SeesVersion (target : TableIdent) (old : Table A) (w : Warehouse A Unit) : Prop :=
  match w.replaced () with
  | none => w.lookup target = some old
  | some _ => w.lookup target = w.committed ∧ w.committed.isSome = true

/-- The next operation is the park, and it succeeds. -/
def Parks (o : Overwrite A) (s : Alone A) (c : Choice) : Prop :=
  ∃ next, s.procs () = some (.ask (.renameTable o.target (parkedOf o.target o.token)) next) ∧
    (s.shared.exec o.target () c (.renameTable o.target (parkedOf o.target o.token))).1 = .ok ()

structure Untouched (o : Overwrite A) (old : Table A) (s : Alone A) : Prop where
  lookup : s.shared.lookup o.target = some old
  replaced : s.shared.replaced () = none
  sound : s.Sound o

section Readers

variable {o : Overwrite A} {old : Table A} {s s' : Alone A} {c : Choice} {w : Warehouse A Unit}

theorem exec_park : ((w.exec target () c (.renameTable target (parkedOf target token))).1 = .ok () ∧
      (w.exec target () c (.renameTable target (parkedOf target token))).2.lookup target = none ∧
      (w.exec target () c (.renameTable target (parkedOf target token))).2.replaced = w.replaced) ∨
    ((w.exec target () c (.renameTable target (parkedOf target token))).1 ≠ .ok () ∧
      (w.exec target () c (.renameTable target (parkedOf target token))).2 = w) := by
  obtain ⟨e, -, h⟩ | ⟨t, -, hs, -, h⟩ := w.catalog.exec_renameTable (c := c) target (parkedOf target token)
  · rw [Warehouse.exec_of_eq h]
    exact .inr ⟨nofun, rfl⟩
  · rw [Warehouse.exec_of_eq h]
    refine .inl ⟨rfl, ?_, (Warehouse.renamed_of_not_staging (.inl parkedOf_ne_target)).2⟩
    exact (Warehouse.lookup_renamed hs target).trans (by rw [if_neg parkedOf_ne_target.symm, if_pos rfl])

/-- No other operation touches the live table: a rename to its name fails. -/
theorem exec_not_park (ho : w.lookup target = some old) {op} (hop : IsOverwriteOp target token op)
    (hne : op ≠ .renameTable target (parkedOf target token)) :
    (w.exec target () c op).2.lookup target = some old ∧ (w.exec target () c op).2.replaced = w.replaced := by
  cases op with
  | tableExists | loadTable | listTables | file | closeWriter | systemTime =>
    rw [Warehouse.exec_of_isRead rfl]
    exact ⟨ho, rfl⟩
  | dropTable n purpose =>
    have hn : target ≠ n := by
      obtain ⟨rfl, -⟩ | ⟨rfl, -⟩ := hop
      · exact stagingOf_ne_target.symm
      · exact parkedOf_ne_target.symm
    obtain ⟨e, -, h⟩ | ⟨t, -, -, h⟩ := w.catalog.exec_dropTable (c := c) n purpose
    · rw [Warehouse.exec_of_eq h]
      exact ⟨ho, rfl⟩
    · rw [Warehouse.exec_of_eq h]
      exact ⟨(w.catalog.lookup_drop target n).trans ((if_neg hn).trans ho), rfl⟩
  | createTable n schema =>
    subst hop
    obtain ⟨e, h⟩ | ⟨-, h⟩ := w.catalog.exec_createTable (c := c) (stagingOf target token) schema
    · rw [Warehouse.exec_of_eq h]
      exact ⟨ho, rfl⟩
    · rw [Warehouse.exec_of_eq h]
      exact ⟨(w.catalog.lookup_create target _ schema _).trans ((if_neg stagingOf_ne_target.symm).trans ho), rfl⟩
  | commitAppend n batches =>
    subst hop
    obtain ⟨e, h⟩ | ⟨t, ht, h⟩ := w.catalog.exec_commitAppend (c := c) (stagingOf target token) batches
    · rw [Warehouse.exec_of_eq h]
      exact ⟨ho, rfl⟩
    · rw [Warehouse.exec_of_eq h]
      exact ⟨(w.catalog.lookup_append target _ ht batches _ _).trans ((if_neg stagingOf_ne_target.symm).trans ho), rfl⟩
  | renameTable src dst =>
    have hd : dst = target := by
      obtain ⟨rfl, rfl⟩ | ⟨-, rfl⟩ | ⟨-, rfl⟩ := hop
      · exact absurd rfl hne
      · rfl
      · rfl
    obtain ⟨e, -, h⟩ | ⟨t, -, -, hno, h⟩ := w.catalog.exec_renameTable (c := c) src dst
    · rw [Warehouse.exec_of_eq h]
      exact ⟨ho, rfl⟩
    · rw [hd] at hno
      exact absurd (ho.symm.trans hno) nofun

theorem untouched_initial {C} (ho : C.lookup o.target = some old) : Untouched o old (Alone.initial C o) where
  lookup := ho
  replaced := rfl
  sound := by
    rintro i p ⟨⟩
    exact wp_overwrite o _

theorem Untouched.step (h : Untouched o old s) (hstep : Alone.step o.target s c = some s') :
    (Parks o s c ∧ s'.shared.lookup o.target = none ∧ s'.shared.replaced () = none) ∨
    (¬ Parks o s c ∧ Untouched o old s') := by
  have hs := h.sound.step hstep
  obtain ⟨op, next, hop, rfl⟩ := Pool.run_eq_some.mp hstep
  have hg := (Pool.Sound.guar h.sound hop ⟨c, trivial⟩).1
  by_cases hp : op = .renameTable o.target (parkedOf o.target o.token)
  · subst hp
    obtain ⟨hok, hgo, hsa⟩ | ⟨hn, hsa⟩ := exec_park (w := s.shared) (c := c)
    · exact .inl ⟨⟨next, hop, hok⟩, hgo, (congrFun hsa ()).trans h.replaced⟩
    · refine .inr ⟨fun ⟨_, _, hok⟩ => hn hok, ?_, ?_, hs⟩
      · exact (congrArg (fun w => w.lookup o.target) hsa).trans h.lookup
      · exact (congrArg (fun w => w.replaced ()) hsa).trans h.replaced
  · obtain ⟨hl, hsa⟩ := exec_not_park (c := c) h.lookup hg hp
    refine .inr ⟨?_, hl, (congrFun hsa ()).trans h.replaced, hs⟩
    rintro ⟨next', hop', -⟩
    cases hop.symm.trans hop'
    exact hp rfl

theorem Untouched.sees (h : Untouched o old s) : SeesVersion o.target old s.shared := by
  unfold SeesVersion
  rw [h.replaced]
  exact h.lookup

theorem not_sees {w} (hg : w.lookup target = none) (hr : w.replaced () = none) :
    ¬ SeesVersion target old w := by
  unfold SeesVersion
  rw [hr, hg]
  nofun

/-- What readers see, that the live table is untouched, and that the overwrite has not parked, come to the same. -/
theorem along_sees_iff (h : Untouched o old s) (choices) :
    (Runs.Along (Alone.step o.target) (fun _ _ s' => SeesVersion o.target old s'.shared) s choices ↔
      Runs.Along (Alone.step o.target) (fun s c _ => ¬ Parks o s c) s choices) ∧
    (Runs.Along (Alone.step o.target) (fun _ _ s' => SeesVersion o.target old s'.shared) s choices ↔
      Runs.Along (Alone.step o.target) (fun _ _ s' => Untouched o old s') s choices) := by
  have hk : ∀ s c s', Untouched o old s → Alone.step o.target s c = some s' →
      SeesVersion o.target old s'.shared → Untouched o old s' := by
    intro s c s' hs hstep hse
    obtain ⟨-, hg, hr⟩ | ⟨-, hs'⟩ := hs.step hstep
    · exact absurd hse (not_sees hg hr)
    · exact hs'
  refine ⟨Runs.along_congr (Untouched o old) hk (fun s c s' hs hstep => ?_) choices h,
    Runs.along_congr (Untouched o old) hk (fun s c s' hs hstep => ?_) choices h⟩
  · obtain ⟨hp, hg, hr⟩ | ⟨hn, hs'⟩ := hs.step hstep
    · exact iff_of_false (not_sees hg hr) fun hn => hn hp
    · exact iff_of_true hs'.sees hn
  · exact ⟨hk s c s' hs hstep, Untouched.sees⟩

/-- Readers see the old version until the promote and the new one after it, if and only if the overwrite does not
get as far as to park the live table; so never if it succeeds. -/
theorem readers_see_prior_iff {C : Catalog A} (hold : C.lookup o.target = some old) (choices : List Choice) :
    (Runs.Along (Alone.step o.target) (fun _ _ s' => SeesVersion o.target old s'.shared) (Alone.initial C o) choices ↔
      Runs.Along (Alone.step o.target) (fun s c _ => ¬ Parks o s c) (Alone.initial C o) choices) ∧
    ∀ s outcome, Runs.run (Alone.step o.target) (Alone.initial C o) choices = some s →
      s.procs () = some (.done (.ok outcome)) →
      ¬ Runs.Along (Alone.step o.target) (fun _ _ s' => SeesVersion o.target old s'.shared) (Alone.initial C o) choices := by
  obtain ⟨hpa, hu⟩ := along_sees_iff (untouched_initial hold) choices
  refine ⟨hpa, fun s outcome hr hd hse => ?_⟩
  have hs := (hu.mp hse).at_end (untouched_initial hold) hr
  have hp : (s.shared.replaced ()).isSome = true := hs.sound () _ hd rfl
  rw [hs.replaced] at hp
  cases hp

end Readers

def refresh : Overwrite Arrow.unit := ⟨[], [], (), [], [], .any⟩

theorem lookup_oneTable : oneTable.lookup refresh.target = some emptyTable := rfl

/-- An overwrite whose staging table cannot be created. -/
theorem readers_see_prior_of_failed_create :
    Runs.Along (Alone.step refresh.target) (fun _ _ s' => SeesVersion refresh.target emptyTable s'.shared)
      (Alone.initial oneTable refresh) [quiet, { quiet with catalogFault := some "no route to host" }] := by
  refine (readers_see_prior_iff lookup_oneTable _).1.mpr ?_
  refine fun s hs => ⟨?_, fun s' _ => ⟨?_, trivial⟩⟩
  · rintro ⟨next, ha, -⟩
    cases ha
  · cases hs
    rintro ⟨next, ha, -⟩
    cases ha

/-- Right after the park of an overwrite, in which nothing fails, the target is gone. -/
theorem target_missing_after_park :
    ¬ Runs.Along (Alone.step refresh.target) (fun _ _ s' => SeesVersion refresh.target emptyTable s'.shared)
      (Alone.initial oneTable refresh) (List.replicate 8 quiet) := by
  intro hse
  have hru : (Runs.run (Alone.step refresh.target) (Alone.initial oneTable refresh) (List.replicate 8 quiet)).map
      (fun s => ((s.shared.lookup refresh.target).isSome, (s.shared.replaced ()).isSome)) = some (false, false) := by
    decide +kernel
  obtain ⟨s, hs, hg⟩ := Option.map_eq_some_iff.mp hru
  obtain ⟨hl, hr⟩ := Prod.mk.inj hg
  refine not_sees ?_ ?_ (hse.at_end (untouched_initial lookup_oneTable).sees hs)
  · exact Option.not_isSome_iff_eq_none.mp (Bool.eq_false_iff.mp hl)
  · exact Option.not_isSome_iff_eq_none.mp (Bool.eq_false_iff.mp hr)

end Materialize

end Dataglot
