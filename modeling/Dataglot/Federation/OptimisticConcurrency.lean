/-
When the writers of one table are correct, whatever the schedule.

A first load takes a target that is parked for a table that is not there, and promotes over
a version it never read. It does so exactly where there can be both a parked target and a
first load that has still to look.
-/
import Dataglot.Federation.Writers
import Dataglot.Library.Runs

namespace Dataglot
open Iceberg Function
open Programs

namespace Materialize

namespace Writers

variable {A : Arrow} {ι : Type} (W : Writers A ι)

structure Correct (s : Writing A ι) : Prop where
  /-- a writer that succeeded replaced the version it expects, or no version if it expects none -/
  ok : ∀ i outcome, s.procs i = some (.done (.ok outcome)) →
    ∃ before, s.shared.replaced i = some before ∧ before.map Table.snapshotId = W.base i
  failed : ∀ i e, s.procs i = some (.done (.error e)) → s.shared.replaced i = none
  /-- the committed version is at the target, or parked by a writer that is still at work -/
  stands : s.shared.lookup W.target = s.shared.committed ∨ (s.shared.lookup W.target = none ∧
    ∃ i op next, s.procs i = some (.ask op next) ∧ s.shared.lookup (W.parked i) = s.shared.committed)

/-- A first load may find the target parked: there is a writer that parks it, and a first load that does not make
the table itself. -/
def Clash (C : Catalog A) : Prop :=
  (∃ j, W.Updates j) ∧
    if (C.lookup W.target).isSome then ∃ i, W.Loads i else ∃ i k, i ≠ k ∧ W.Loads i ∧ W.Loads k

/-! ## Without a clash -/

variable {W} {C : Catalog A}

theorem oneLoad_of_not_clash (h : ¬ W.Clash C) : W.OneLoad := by
  intro hu i k hi hk
  by_contra hik
  refine h ⟨hu, ?_⟩
  split
  · exact ⟨i, hi⟩
  · exact ⟨i, k, hik, hi, hk⟩

theorem inv_initial (h : ¬ W.Clash C) : W.Inv (W.initial C).shared where
  shows _ ht := ht
  stands _ ht := .inl ht
  holder i hh := by
    obtain ⟨t, ht, hp⟩ := hh
    exact absurd (C.identified.inj hp ht rfl) parkedOf_ne_target
  first hu i hi _ := by
    show C.lookup W.target = none
    by_contra hs
    refine h ⟨hu, ?_⟩
    rw [if_pos (Option.isSome_iff_ne_none.mpr hs)]
    exact ⟨i, hi⟩

variable [DecidableEq ι]

/-- Every writer is where its outline says. -/
structure Sound (W : Writers A ι) (s : Writing A ι) : Prop where
  inv : W.Inv s.shared
  pool : s.Sound W.exec W.terms fun i => W.Post i (W.Finished i)
  present : ∀ i, ∃ p, s.procs i = some p

theorem Sound.initial (h : ¬ W.Clash C) : W.Sound (W.initial C) := by
  have hi := inv_initial h
  refine ⟨hi, fun i p hp => ?_, fun i => ⟨_, rfl⟩⟩
  cases hp
  refine wp_program (oneLoad_of_not_clash h) ⟨hi, fun hh => ?_, rfl⟩
  obtain ⟨t, ht, hpa⟩ := hh
  exact parkedOf_ne_target (C.identified.inj hpa ht rfl)

theorem Sound.run {s s' : Writing A ι} {i} {c : { c : Choice // c.catalogFault = none }} (h : W.Sound s)
    (hr : Pool.run W.exec i c s = some s') : W.Sound s' := by
  refine ⟨?_, h.pool.run (fun i r => Post.stable r) (fun i j hij w op r w' hg hin => ?_) hr, fun j => ?_⟩
  · obtain ⟨op, next, hi, rfl⟩ := Pool.run_eq_some.mp hr
    exact (h.pool.guar hi c h.inv).1
  · obtain ⟨hi', hf⟩ := hg hin
    exact ⟨hi', hf i hij⟩
  · obtain ⟨op, next, hi, rfl⟩ := Pool.run_eq_some.mp hr
    by_cases hji : j = i
    · subst hji
      exact ⟨_, update_self ..⟩
    · obtain ⟨p, hp⟩ := h.present j
      exact ⟨p, (update_of_ne hji ..).trans hp⟩

theorem Sound.correct {s} (h : W.Sound s) : W.Correct s := by
  refine ⟨fun i outcome hi => (h.pool i _ hi).promoted, fun i e hi => (h.pool i _ hi).unpromoted, ?_⟩
  cases hta : s.shared.lookup W.target with
  | some t => exact .inl (h.inv.shows t hta).symm
  | none =>
    obtain hn | ⟨i, hh⟩ := h.inv.missing hta
    · exact .inl hn.symm
    · right
      obtain ⟨p, hp⟩ := h.present i
      have hat := h.pool i p hp
      cases p with
      | done r =>
        -- a writer that is done holds nothing
        exfalso
        cases r with
        | ok => exact Finished.free hat hh
        | error => exact Fresh.free hat hh
      | ask op next =>
        obtain ⟨t, ht, hpa⟩ := hh
        exact ⟨rfl, i, op, next, hp, hpa.trans ht.symm⟩

theorem Sound.of_reaches {s s' : Writing A ι} (h : W.Sound s) (hr : Pool.Reaches W.exec s s') : W.Sound s' := by
  induction hr with
  | refl => exact h
  | tail _ hstep ih =>
    obtain ⟨i, c, hru⟩ := hstep
    exact ih.run hru

/-! ## A clash -/

def calm : { c : Choice // c.catalogFault = none } := ⟨quiet, rfl⟩

section Calm

variable {i : ι} {w : Warehouse A ι} {n : TableIdent} {t : Table A}

theorem calm_tableExists (n) : W.exec i calm w (.tableExists n) = (.ok (w.lookup n).isSome, w) := rfl

theorem calm_createTable (hn : w.lookup n = none) (schema) :
    W.exec i calm w (.createTable n schema) = (.ok (), { w with catalog := w.catalog.create n schema 5 }) := by
  refine Warehouse.exec_of_eq ?_
  dsimp only [Catalog.exec, calm, quiet, attempt]
  rw [show w.catalog.lookup n = _ from hn]

theorem calm_dropTable (hn : w.lookup n = some t) (purpose) :
    W.exec i calm w (.dropTable n purpose) = (.ok (), { w with catalog := w.catalog.drop n }) := by
  refine Warehouse.exec_of_eq ?_
  dsimp only [Catalog.exec, calm, quiet, attempt]
  rw [show w.catalog.lookup n = _ from hn]

theorem calm_commitAppend (hn : w.lookup n = some t) (batches) :
    W.exec i calm w (.commitAppend n batches) = (.ok (), { w with catalog := w.catalog.append n batches 1 5 }) := by
  refine Warehouse.exec_of_eq ?_
  dsimp only [Catalog.exec, calm, quiet, attempt]
  rw [show w.catalog.lookup n = _ from hn]

theorem calm_renameTable {src dst} (hs : w.lookup src = some t) (hd : w.lookup dst = none) :
    W.exec i calm w (.renameTable src dst) = (.ok (), w.renamed W.target i src dst) := by
  refine Warehouse.exec_of_eq ?_
  dsimp only [Catalog.exec, calm, quiet, attempt]
  rw [show w.catalog.lookup src = _ from hs, show w.catalog.lookup dst = _ from hd]

end Calm

/-- A change at one name. -/
structure ChangedAt (n : TableIdent) (w w' : Warehouse A ι) : Prop where
  committed : w'.committed = w.committed
  replaced : w'.replaced = w.replaced
  lookup : ∀ m, m ≠ n → w'.lookup m = w.lookup m

omit [DecidableEq ι] in
theorem ChangedAt.refl (n) (w : Warehouse A ι) : ChangedAt n w w := ⟨rfl, rfl, fun _ _ => rfl⟩

omit [DecidableEq ι] in
theorem ChangedAt.trans {n} {w₁ w₂ w₃ : Warehouse A ι} (h : ChangedAt n w₁ w₂) (h' : ChangedAt n w₂ w₃) :
    ChangedAt n w₁ w₃ :=
  ⟨h'.committed.trans h.committed, h'.replaced.trans h.replaced, fun m hm => (h'.lookup m hm).trans (h.lookup m hm)⟩

section Goes

variable {i : ι} {w : Warehouse A ι} {t : Table A}

theorem goes_clearLeftover (n purpose) : ∃ w', ChangedAt n w w' ∧ w'.lookup n = none ∧
      Goes (W.exec i) w (clearLeftover n purpose) w' (.done ()) := by
  cases hn : w.lookup n with
  | none =>
    refine ⟨w, .refl n w, hn, .ask calm (calm_tableExists n) ?_⟩
    rw [hn]
    exact .refl
  | some t =>
    refine ⟨{ w with catalog := w.catalog.drop n }, ⟨rfl, rfl, fun m hm => ?_⟩, ?_, .ask calm (calm_tableExists n) ?_⟩
    · exact (w.catalog.lookup_drop m n).trans (if_neg hm)
    · exact (w.catalog.lookup_drop n n).trans (if_pos rfl)
    · rw [hn]
      exact .ask calm (calm_dropTable hn purpose) .refl

theorem goes_writeBatches {annotated} : ∀ {batches rows written},
    Fit annotated batches → ∃ r, Goes (W.exec i) w (writeBatches annotated (batches.map .ok) rows written) w
    (.done (.ok r))
  | [], rows, written, _ => ⟨(rows, written), .refl⟩
  | batch :: rest, rows, written, hf => by
    obtain ⟨hb, hrt⟩ := List.forall_mem_cons.mp hf
    rw [List.map_cons]
    unfold writeBatches
    split
    next => exact goes_writeBatches hrt
    next hro =>
      obtain ⟨rebound, hr⟩ := hb hro
      have hre : rebindBatch batch annotated = .ok rebound := by
        unfold rebindBatch
        rw [hr]
        rfl
      rw [hre]
      obtain ⟨r, hg⟩ := goes_writeBatches hrt
      exact ⟨r, .step calm hg⟩

theorem goes_commitFiles {n} (hn : w.lookup n = some t) (written dataFiles rows) :
    ∃ w' r, ChangedAt n w w' ∧ (∃ t', w'.lookup n = some t') ∧
      Goes (W.exec i) w (commitFiles n written dataFiles rows) w' (.done (.ok r)) := by
  unfold commitFiles
  split
  next => exact ⟨w, _, .refl n w, ⟨t, hn⟩, .refl⟩
  next =>
    refine ⟨{ w with catalog := w.catalog.append n written 1 5 }, (dataFiles, rows), ⟨rfl, rfl, fun m hm => ?_⟩, ?_,
      .step calm (.ask calm (calm_commitAppend hn written) .refl)⟩
    · exact (w.catalog.lookup_append m n hn written 1 5).trans (if_neg hm)
    · exact ⟨_, (w.catalog.lookup_append n n hn written 1 5).trans (if_pos rfl)⟩

theorem goes_writeStreamAndCommit {n} (hn : w.lookup n = some t) {annotated batches} (hf : Fit annotated batches) :
    ∃ w' r, ChangedAt n w w' ∧ (∃ t', w'.lookup n = some t') ∧
      Goes (W.exec i) w (writeStreamAndCommit n (batches.map .ok) annotated) w' (.done (.ok r)) := by
  obtain ⟨⟨rows, written⟩, hw⟩ := goes_writeBatches (W := W) (i := i) (w := w) hf
  obtain ⟨w', r, hc, hs, hco⟩ := goes_commitFiles (W := W) (i := i) hn written 1 rows
  refine ⟨w', r, hc, hs, .step calm (.step calm ?_)⟩
  exact (hw.bind _).trans (.step calm hco)

theorem goes_program (hw : W.Writes i) (w) :
    ∃ w' f, (∃ outcome, f (.ok ()) = .done (.ok outcome)) ∧
      Goes (W.exec i) w (W.program i) w'
        (swap W.target.name (W.parked i) W.target (W.staging i) (W.expected i) >>= f) ∧
      (∃ t, w'.lookup (W.staging i) = some t) ∧ w'.lookup (W.parked i) = none ∧
      w'.committed = w.committed ∧ w'.replaced = w.replaced ∧
      ∀ m, m ≠ W.staging i → m ≠ W.parked i → w'.lookup m = w.lookup m := by
  obtain ⟨icebergSchema, annotated, hsc, ha, hf⟩ := hw
  obtain ⟨w₁, h₁, hmi, hcl⟩ := goes_clearLeftover (W := W) (i := i) (w := w) (W.staging i) .stagingCleanup
  have h₂ : ChangedAt (W.staging i) w₁ { w₁ with catalog := w₁.catalog.create (W.staging i) icebergSchema 5 } :=
    ⟨rfl, rfl, fun m hm => (w₁.catalog.lookup_create m _ icebergSchema 5).trans (if_neg hm)⟩
  have hc := (w₁.catalog.lookup_create (W.staging i) (W.staging i) icebergSchema 5).trans (if_pos rfl)
  obtain ⟨w₃, ⟨dataFiles, rows⟩, h₃, ⟨t, hst⟩, hwr⟩ :=
    goes_writeStreamAndCommit (W := W) (i := i) (w := { w₁ with catalog := _ }) hc hf
  obtain ⟨w₄, h₄, hp, hc'⟩ := goes_clearLeftover (W := W) (i := i) (w := w₃) (W.parked i) .preClean
  have hs := (h₁.trans h₂).trans h₃
  refine ⟨w₄, ?_⟩
  -- what follows the swap is read off the program
  apply Exists.intro
  refine ⟨?returned, ?went, ⟨t, (h₄.lookup _ stagingOf_ne_parkedOf).trans hst⟩, hp, h₄.committed.trans hs.committed,
    h₄.replaced.trans hs.replaced, fun m hm hm' => (h₄.lookup m hm').trans (hs.lookup m hm)⟩
  case went =>
    unfold program overwriteTableChecked overwriteTableStreamChecked
    dsimp only
    rw [hsc]
    dsimp only
    rw [ha]
    refine (hcl.bind _).trans (.ask calm (calm_createTable hmi icebergSchema) ?_)
    refine (hwr.bind _).trans ?_
    exact (hc'.bind fun _ => swap W.target.name (W.parked i) W.target (W.staging i) (W.expected i)).bind _
  case returned => exact ⟨_, rfl⟩

theorem goes_park {version} (he : W.base i = some version) (ht : w.lookup W.target = some t)
    (hp : w.lookup (W.parked i) = none) {β : Type} (f : Except DataglotError Unit → Program A β) :
    ∃ w' p, Goes (W.exec i) w (swap W.target.name (W.parked i) W.target (W.staging i) (W.expected i) >>= f) w' p ∧
      w'.lookup W.target = none ∧ w'.committed = w.committed ∧
      ∀ m, m ≠ W.target → m ≠ W.parked i → w'.lookup m = w.lookup m := by
  rw [expected_of_some he]
  have hpr : W.exec i calm w (.tableExists W.target) = (.ok true, w) := by
    rw [calm_tableExists, ht]
    rfl
  refine ⟨_, _, .ask calm hpr (.ask calm (calm_renameTable ht hp) .refl), ?_, ?_, fun m hm hm' => ?_⟩
  · rw [Warehouse.lookup_renamed ht, if_neg parkedOf_ne_target.symm, if_pos rfl]
  · exact (Warehouse.renamed_of_not_staging (.inl parkedOf_ne_target)).1
  · rw [Warehouse.lookup_renamed ht, if_neg hm', if_neg hm]

theorem goes_firstLoad (he : W.base i = none) (hm : w.lookup W.target = none)
    (hs : w.lookup (W.staging i) = some t) {β : Type} (f : Except DataglotError Unit → Program A β) :
    ∃ w', Goes (W.exec i) w (swap W.target.name (W.parked i) W.target (W.staging i) (W.expected i) >>= f) w'
        (f (.ok ())) ∧
      w'.lookup W.target = some t ∧ w'.committed = some t ∧ w'.replaced i = some w.committed := by
  rw [expected_of_none he]
  have hp : W.exec i calm w (.tableExists W.target) = (.ok false, w) := by
    rw [calm_tableExists, hm]
    rfl
  refine ⟨_, .ask calm hp (.ask calm (calm_renameTable hs hm) .refl), ?_, ?_, ?_⟩
  · rw [Warehouse.lookup_renamed hs, if_pos rfl]
  · exact Warehouse.renamed_staging.1.trans hs
  · exact (congrFun Warehouse.renamed_staging.2 i).trans (update_self ..)

end Goes

section Misled

variable {s : Writing A ι} {i j : ι} {t u : Table A}

/-- A first load that looks while the target is parked. -/
theorem misled (hl : W.Loads i) (hup : W.Updates j) (hi : s.procs i = some (W.program i))
    (hj : s.procs j = some (W.program j)) (ht : s.shared.lookup W.target = some t) (hu : s.shared.committed = some u) :
    ∃ s', Pool.Reaches W.exec s s' ∧ ¬ W.Correct s' := by
  obtain ⟨version, hve⟩ := Option.isSome_iff_exists.mp hup.2
  have hij : i ≠ j := by
    rintro rfl
    exact absurd (hve.symm.trans hl.2) nofun
  -- the first load runs up to its probe, then the update through its park, then the first load goes on
  obtain ⟨w₁, f, ⟨outcome, hf⟩, hg₁, ⟨v, hv⟩, -, hc₁, -, hs₁⟩ := goes_program hl.1 s.shared
  obtain ⟨w₂, g, -, hg₂, -, hp, hc₂, -, hs₂⟩ := goes_program hup.1 w₁
  have ht₂ : w₂.lookup W.target = some t := by
    rw [hs₂ _ stagingOf_ne_target.symm parkedOf_ne_target.symm, hs₁ _ stagingOf_ne_target.symm
      parkedOf_ne_target.symm, ht]
  obtain ⟨w₃, p, hg₃, hm, hc₃, hs₃⟩ := goes_park hve ht₂ hp g
  have hs : w₃.lookup (W.staging i) = some v := by
    rw [hs₃ _ stagingOf_ne_target stagingOf_ne_parkedOf, hs₂ _ (staging_ne hij) stagingOf_ne_parkedOf, hv]
  obtain ⟨w₄, hg₄, -, -, hr⟩ := goes_firstLoad hl.2 hm hs f
  rw [hf] at hg₄
  have hr₁ := Pool.reaches_of_goes hg₁ hi
  generalize swap W.target.name (W.parked i) W.target (W.staging i) (W.expected i) >>= f = q at hr₁ hg₄
  have hr₂ := Pool.reaches_of_goes (s := ⟨w₁, update s.procs i (some q)⟩) (hg₂.trans hg₃)
    ((update_of_ne hij.symm ..).trans hj)
  have hr₃ := Pool.reaches_of_goes
    (s := ⟨w₃, update (update s.procs i (some q)) j (some p)⟩) hg₄
    ((update_of_ne hij ..).trans (update_self ..))
  refine ⟨_, (hr₁.trans hr₂).trans hr₃, fun hc => ?_⟩
  obtain ⟨before, hb, hba⟩ := hc.ok i outcome (update_self ..)
  cases hb.symm.trans hr
  rw [hc₃, hc₂, hc₁, hu, hl.2] at hba
  cases hba

theorem loaded (hl : W.Loads i) (hi : s.procs i = some (W.program i)) (ht : s.shared.lookup W.target = none) :
    ∃ s', Pool.Reaches W.exec s s' ∧ (∀ j, j ≠ i → s'.procs j = s.procs j) ∧
      ∃ t, s'.shared.lookup W.target = some t ∧ s'.shared.committed = some t := by
  obtain ⟨w, f, -, hg, ⟨t, hs⟩, -, -, -, hsa⟩ := goes_program hl.1 s.shared
  have hm : w.lookup W.target = none :=
    (hsa _ stagingOf_ne_target.symm parkedOf_ne_target.symm).trans ht
  obtain ⟨w', hg', hta, hc, -⟩ := goes_firstLoad hl.2 hm hs f
  exact ⟨_, Pool.reaches_of_goes (hg.trans hg') hi, fun j hji => update_of_ne hji .., t, hta, hc⟩

end Misled

/-- Writers are correct in every schedule exactly if there is no clash. -/
theorem writers_correct_iff (W : Writers A ι) (C : Catalog A) :
    (∀ s, Pool.Reaches W.exec (W.initial C) s → W.Correct s) ↔ ¬ W.Clash C := by
  constructor
  · rintro hc ⟨⟨j, hj⟩, hl⟩
    cases hta : C.lookup W.target with
    | some t =>
      rw [hta] at hl
      obtain ⟨i, hi⟩ := hl
      obtain ⟨s, hr, hw⟩ := misled (s := W.initial C) hi hj rfl rfl hta hta
      exact hw (hc s hr)
    | none =>
      rw [hta] at hl
      obtain ⟨i, k, hik, hi, hk⟩ := hl
      have hjk : j ≠ k := by
        rintro rfl
        have hb := hj.2
        rw [hk.2] at hb
        cases hb
      -- the other first load makes the table
      obtain ⟨s₁, hr₁, ho, t, ht, hco⟩ := loaded (s := W.initial C) hk rfl hta
      obtain ⟨s, hr, hw⟩ := misled hi hj (ho i hik) (ho j hjk) ht hco
      exact hw (hc s (hr₁.trans hr))
  · intro hcl s hr
    exact ((Sound.initial hcl).of_reaches hr).correct

def loadAndUpdate : Writers Arrow.unit Bool where
  target := ⟨[], []⟩
  schema _ := ()
  batches _ := []
  token first := if first then ['a'] else ['b']
  base first := if first then none else some none
  token_inj := by
    intro i j h
    cases i <;> cases j <;> simp_all

/-- The first load runs up to its probe, the update through its park, and the first load to its end. -/
def loadWhileParked : List Bool := List.replicate 6 true ++ List.replicate 8 false ++ List.replicate 2 true

/-- The first load succeeds, in the place of a version it never read. -/
theorem first_load_replaces_parked : ∃ s,
    Runs.run (fun s i => Pool.run loadAndUpdate.exec i calm s) (loadAndUpdate.initial oneTable) loadWhileParked = some s ∧
    ¬ loadAndUpdate.Correct s := by
  have hru : (Runs.run (fun s i => Pool.run loadAndUpdate.exec i calm s) (loadAndUpdate.initial oneTable)
      loadWhileParked).map (fun s => ((s.result true).map Except.isOk, (s.shared.replaced true).map Option.isSome)) =
      some (some true, some true) := by decide +kernel
  obtain ⟨s, hs, he⟩ := Option.map_eq_some_iff.mp hru
  obtain ⟨hrt, hre⟩ := Prod.mk.inj he
  refine ⟨s, hs, fun hc => ?_⟩
  obtain ⟨r, hr, hok⟩ := Option.map_eq_some_iff.mp hrt
  cases r with
  | error e => cases hok
  | ok outcome =>
    obtain ⟨before, hb, hba⟩ := hc.ok true outcome (Pool.result_eq_some.mp hr)
    rw [hb] at hre
    cases before with
    | none => cases hre
    | some t => cases hba

end Writers

end Materialize

end Dataglot
