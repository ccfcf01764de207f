/-
Any number of writers of one table, each expecting a version of it, in every interleaving
of their catalog operations, where the catalog itself never fails.

A writer that has parked the committed version holds it: no other can park, and only the
holder gives it back or replaces it. A first load (`Absent`) does not take part in that; it
takes a missing target for a missing table. So the writers are correct as long as no first
load can find the target parked.
-/
import Dataglot.Federation.Warehouse

namespace Dataglot
open Iceberg Function
open Programs

namespace Materialize

/-- Calls of `overwrite_table_checked` on one table, with different tokens. -/
structure Writers (A : Arrow) (ι : Type) where
  target : TableIdent
  schema : ι → A.Schema
  batches : ι → List A.Batch
  token : ι → Name
  /-- the version a writer expects: none for `Absent`, the snapshot for `Snapshot` -/
  base : ι → Option (Option Int)
  token_inj : Function.Injective token

abbrev Writing (A : Arrow) (ι : Type) : Type :=
  Pool ι (Warehouse A ι) (Op A) Op.Reply (Except DataglotError MaterializeOutcome)

namespace Writers

variable {A : Arrow} {ι : Type} (W : Writers A ι)

def expected (i : ι) : ExpectedVersion :=
  match W.base i with
  | none => .absent
  | some version => .snapshot version

def program (i : ι) : Program A (Except DataglotError MaterializeOutcome) :=
  overwriteTableChecked W.target.ns W.target.name (W.schema i) (W.batches i) (W.token i) (W.expected i)

def initial (C : Catalog A) : Writing A ι :=
  ⟨⟨C, C.lookup W.target, fun _ => none⟩, fun i => some (W.program i)⟩

/-- The catalog's operations, which do not fail of themselves. -/
abbrev exec [DecidableEq ι] : ι → { c : Choice // c.catalogFault = none } → Warehouse A ι → (op : Op A) →
    op.Reply × Warehouse A ι :=
  Warehouse.step W.target fun c => c.catalogFault = none

abbrev staging (i : ι) : TableIdent := stagingOf W.target (W.token i)

abbrev parked (i : ι) : TableIdent := parkedOf W.target (W.token i)

def Fit (annotated : A.Schema) (batches : List A.Batch) : Prop :=
  ∀ batch ∈ batches, A.numRows batch ≠ 0 → ∃ rebound, A.tryNew annotated batch = .ok rebound

/-- What the writer has makes a table: the schema can be mapped, and the batches fit it. -/
def Writes (i : ι) : Prop :=
  ∃ icebergSchema annotated, A.toIceberg (W.schema i) = .ok icebergSchema ∧ A.toArrow icebergSchema = .ok annotated ∧
    Fit annotated (W.batches i)

def Updates (i : ι) : Prop := W.Writes i ∧ (W.base i).isSome = true

def Loads (i : ι) : Prop := W.Writes i ∧ W.base i = none

/-- Where there are updates, there is one first load at most. -/
def OneLoad : Prop := (∃ j, W.Updates j) → ∀ i k, W.Loads i → W.Loads k → i = k

/-! ## Holding the committed version -/

/-- The writer has parked the committed version. -/
def Holds (i : ι) (w : Warehouse A ι) : Prop := ∃ t, w.committed = some t ∧ w.lookup (W.parked i) = some t

structure Inv (w : Warehouse A ι) : Prop where
  /-- the target shows nothing but the committed version -/
  shows : ∀ t, w.lookup W.target = some t → w.committed = some t
  stands : ∀ t, w.committed = some t → w.lookup W.target = some t ∨ ∃ i, w.lookup (W.parked i) = some t
  holder : ∀ i, W.Holds i w → W.Updates i
  /-- where there are updates, nothing is committed before a first load is -/
  first : (∃ j, W.Updates j) → ∀ i, W.Loads i → w.replaced i = none → w.committed = none

/-- What the steps of the others leave a writer. -/
structure Frame (i : ι) (w w' : Warehouse A ι) : Prop where
  staging : w'.lookup (W.staging i) = w.lookup (W.staging i)
  parked : w'.lookup (W.parked i) = w.lookup (W.parked i)
  replaced : w'.replaced i = w.replaced i
  held : W.Holds i w → w'.committed = w.committed
  holds : W.Holds i w' → W.Holds i w

def terms (i : ι) : Terms (Warehouse A ι) (Op A) Op.Reply where
  rely w w' := W.Inv w → W.Inv w' ∧ W.Frame i w w'
  guar w _ _ w' := W.Inv w → W.Inv w' ∧ ∀ j, j ≠ i → W.Frame j w w'
  refl _ h := ⟨h, rfl, rfl, rfl, fun _ => rfl, id⟩
  trans {w₁ w₂ w₃} h h' hinv := by
    obtain ⟨hinv₂, hframe⟩ := h hinv
    obtain ⟨hinv₃, hframe'⟩ := h' hinv₂
    refine ⟨hinv₃, hframe'.staging.trans hframe.staging, hframe'.parked.trans hframe.parked,
      hframe'.replaced.trans hframe.replaced, fun hholds => ?_, fun hholds => hframe.holds (hframe'.holds hholds)⟩
    obtain ⟨t, ht, hparked⟩ := hholds
    have hcommitted := hframe.held ⟨t, ht, hparked⟩
    exact (hframe'.held ⟨t, hcommitted.trans ht, hframe.parked.trans hparked⟩).trans hcommitted

variable {W} {i j : ι} {w w' : Warehouse A ι}

theorem Holds.unique (hi : W.Holds i w) (hj : W.Holds j w) : i = j := by
  obtain ⟨t, ht, hit⟩ := hi
  obtain ⟨u, hu, hju⟩ := hj
  cases ht.symm.trans hu
  exact W.token_inj (parkedOf_inj.mp (w.catalog.identified.inj hit hju rfl))

theorem Inv.target_of_holds (h : W.Inv w) (hi : W.Holds i w) : w.lookup W.target = none := by
  cases hta : w.lookup W.target with
  | none => rfl
  | some u =>
    obtain ⟨t, ht, hit⟩ := hi
    cases ht.symm.trans (h.shows u hta)
    exact absurd (w.catalog.identified.inj hit hta rfl) parkedOf_ne_target

/-- A missing target is held by a writer, or there is no table. -/
theorem Inv.missing (h : W.Inv w) (hm : w.lookup W.target = none) : w.committed = none ∨ ∃ i, W.Holds i w := by
  cases hc : w.committed with
  | none => exact .inl rfl
  | some t =>
    obtain ht | ⟨i, hi⟩ := h.stands t hc
    · exact absurd (hm.symm.trans ht) nofun
    · exact .inr ⟨i, t, hc, hi⟩

/-! ## What the steps of a writer do -/

theorem staging_ne (hij : j ≠ i) : W.staging j ≠ W.staging i := fun h => hij (W.token_inj (stagingOf_inj.mp h))

theorem parked_ne (hij : j ≠ i) : W.parked j ≠ W.parked i := fun h => hij (W.token_inj (parkedOf_inj.mp h))

/-- A step on the writer's own names, which takes away no committed version. -/
structure Private (W : Writers A ι) (i : ι) (w w' : Warehouse A ι) : Prop where
  committed : w'.committed = w.committed
  replaced : w'.replaced = w.replaced
  lookup : ∀ n, n ≠ W.staging i → n ≠ W.parked i → w'.lookup n = w.lookup n
  parked : w'.lookup (W.parked i) = w.lookup (W.parked i) ∨ (¬ W.Holds i w ∧ w'.lookup (W.parked i) = none)

namespace Private

theorem holds (h : W.Private i w w') (hj : W.Holds j w') : W.Holds j w := by
  obtain ⟨t, ht, hjt⟩ := hj
  rw [h.committed] at ht
  by_cases hji : j = i
  · subst hji
    obtain hs | ⟨-, hn⟩ := h.parked
    · exact ⟨t, ht, hs ▸ hjt⟩
    · exact absurd (hn.symm.trans hjt) nofun
  · rw [h.lookup _ stagingOf_ne_parkedOf.symm (parked_ne hji)] at hjt
    exact ⟨t, ht, hjt⟩

theorem frame (h : W.Private i w w') (hji : j ≠ i) : W.Frame j w w' where
  staging := h.lookup _ (staging_ne hji) stagingOf_ne_parkedOf
  parked := h.lookup _ stagingOf_ne_parkedOf.symm (parked_ne hji)
  replaced := congrFun h.replaced j
  held _ := h.committed
  holds := h.holds

theorem inv (h : W.Private i w w') (hi : W.Inv w) : W.Inv w' where
  shows t ht := by
    rw [h.lookup _ stagingOf_ne_target.symm parkedOf_ne_target.symm] at ht
    rw [h.committed]
    exact hi.shows t ht
  stands t ht := by
    rw [h.committed] at ht
    obtain hta | ⟨j, hj⟩ := hi.stands t ht
    · left
      rw [h.lookup _ stagingOf_ne_target.symm parkedOf_ne_target.symm]
      exact hta
    · right
      refine ⟨j, ?_⟩
      by_cases hji : j = i
      · subst hji
        obtain hs | ⟨hn, -⟩ := h.parked
        · exact hs.trans hj
        · exact absurd ⟨t, ht, hj⟩ hn
      · rw [h.lookup _ stagingOf_ne_parkedOf.symm (parked_ne hji)]
        exact hj
  holder j hj := hi.holder j (h.holds hj)
  first hu j hj hr := by
    rw [h.committed]
    exact hi.first hu j hj ((congrFun h.replaced j).symm.trans hr)

theorem guar (h : W.Private i w w') {op r} : (W.terms i).guar w op r w' :=
  fun hi => ⟨h.inv hi, fun _ hji => h.frame hji⟩

theorem refl (w) : W.Private i w w := ⟨rfl, rfl, fun _ _ _ => rfl, .inl rfl⟩

theorem create (schema nowMs) :
    W.Private i w { w with catalog := w.catalog.create (W.staging i) schema nowMs } where
  committed := rfl
  replaced := rfl
  lookup n hn _ := (w.catalog.lookup_create n _ schema nowMs).trans (if_neg hn)
  parked := .inl ((w.catalog.lookup_create _ _ schema nowMs).trans (if_neg stagingOf_ne_parkedOf.symm))

theorem append {t} (ht : w.lookup (W.staging i) = some t) (batches snapshotId nowMs) :
    W.Private i w { w with catalog := w.catalog.append (W.staging i) batches snapshotId nowMs } where
  committed := rfl
  replaced := rfl
  lookup n hn _ := (w.catalog.lookup_append n _ ht batches snapshotId nowMs).trans (if_neg hn)
  parked := .inl ((w.catalog.lookup_append _ _ ht batches snapshotId nowMs).trans (if_neg stagingOf_ne_parkedOf.symm))

theorem drop_staging : W.Private i w { w with catalog := w.catalog.drop (W.staging i) } where
  committed := rfl
  replaced := rfl
  lookup n hn _ := (w.catalog.lookup_drop n _).trans (if_neg hn)
  parked := .inl ((w.catalog.lookup_drop _ _).trans (if_neg stagingOf_ne_parkedOf.symm))

theorem drop_parked (hf : ¬ W.Holds i w) : W.Private i w { w with catalog := w.catalog.drop (W.parked i) } where
  committed := rfl
  replaced := rfl
  lookup n _ hn := (w.catalog.lookup_drop n _).trans (if_neg hn)
  parked := .inr ⟨hf, (w.catalog.lookup_drop _ _).trans (if_pos rfl)⟩

end Private

def Own (W : Writers A ι) (i : ι) (n : TableIdent) : Prop := n = W.target ∨ n = W.staging i ∨ n = W.parked i

theorem Own.staging_ne {n} (h : W.Own i n) (hji : j ≠ i) : W.staging j ≠ n := by
  obtain rfl | rfl | rfl := h
  · exact stagingOf_ne_target
  · exact Writers.staging_ne hji
  · exact stagingOf_ne_parkedOf

theorem Own.parked_ne {n} (h : W.Own i n) (hji : j ≠ i) : W.parked j ≠ n := by
  obtain rfl | rfl | rfl := h
  · exact parkedOf_ne_target
  · exact stagingOf_ne_parkedOf.symm
  · exact Writers.parked_ne hji

section Renames

variable [DecidableEq ι] {t : Table A} {src dst : TableIdent}

theorem lookup_renamed_parked (hs : w.lookup src = some t) (ho : W.Own i src) (ho' : W.Own i dst) (hji : j ≠ i) :
    (w.renamed W.target i src dst).lookup (W.parked j) = w.lookup (W.parked j) := by
  rw [Warehouse.lookup_renamed hs, if_neg (ho'.parked_ne hji), if_neg (ho.parked_ne hji)]

theorem lookup_renamed_staging (hs : w.lookup src = some t) (ho : W.Own i src) (ho' : W.Own i dst) (hji : j ≠ i) :
    (w.renamed W.target i src dst).lookup (W.staging j) = w.lookup (W.staging j) := by
  rw [Warehouse.lookup_renamed hs, if_neg (ho'.staging_ne hji), if_neg (ho.staging_ne hji)]

theorem holds_renamed (hs : w.lookup src = some t) (ho : W.Own i src) (ho' : W.Own i dst)
    (hc : (w.renamed W.target i src dst).committed = w.committed) (hji : j ≠ i)
    (hj : W.Holds j (w.renamed W.target i src dst)) : W.Holds j w := by
  obtain ⟨u, hu, hju⟩ := hj
  rw [hc] at hu
  rw [lookup_renamed_parked hs ho ho' hji] at hju
  exact ⟨u, hu, hju⟩

theorem frame_renamed (hs : w.lookup src = some t) (ho : W.Own i src) (ho' : W.Own i dst)
    (hc : (w.renamed W.target i src dst).committed = w.committed)
    (hr : (w.renamed W.target i src dst).replaced = w.replaced) (hji : j ≠ i) :
    W.Frame j w (w.renamed W.target i src dst) where
  staging := lookup_renamed_staging hs ho ho' hji
  parked := lookup_renamed_parked hs ho ho' hji
  replaced := congrFun hr j
  held _ := hc
  holds := holds_renamed hs ho ho' hc hji

theorem park_step (hi : W.Inv w) (ht : w.lookup W.target = some t) (hup : W.Updates i) :
    W.Inv (w.renamed W.target i W.target (W.parked i)) ∧
    (∀ j, j ≠ i → W.Frame j w (w.renamed W.target i W.target (W.parked i))) ∧
    W.Holds i (w.renamed W.target i W.target (W.parked i)) := by
  obtain ⟨hc, hr⟩ : (w.renamed W.target i W.target (W.parked i)).committed = w.committed ∧
      (w.renamed W.target i W.target (W.parked i)).replaced = w.replaced :=
    Warehouse.renamed_of_not_staging (.inl parkedOf_ne_target)
  have hp : (w.renamed W.target i W.target (W.parked i)).lookup (W.parked i) = some t := by
    rw [Warehouse.lookup_renamed ht, if_pos rfl]
  have hta : (w.renamed W.target i W.target (W.parked i)).lookup W.target = none := by
    rw [Warehouse.lookup_renamed ht, if_neg parkedOf_ne_target.symm, if_pos rfl]
  refine ⟨⟨fun u hu => ?_, fun u hu => .inr ⟨i, ?_⟩, fun j hj => ?_, ?_⟩, ?_, ?_⟩
  · exact absurd (hta.symm.trans hu) nofun
  · rw [hp, ← hi.shows t ht, ← hu, hc]
  · by_cases hji : j = i
    · exact hji ▸ hup
    · exact hi.holder j (holds_renamed ht (.inl rfl) (.inr (.inr rfl)) hc hji hj)
  · rw [hc, hr]
    exact hi.first
  · exact fun j hji => frame_renamed ht (.inl rfl) (.inr (.inr rfl)) hc hr hji
  · exact ⟨t, hc.trans (hi.shows t ht), hp⟩

theorem release_step (hi : W.Inv w) (hh : W.Holds i w) : W.Inv (w.renamed W.target i (W.parked i) W.target) ∧
    (∀ j, j ≠ i → W.Frame j w (w.renamed W.target i (W.parked i) W.target)) ∧
    ¬ W.Holds i (w.renamed W.target i (W.parked i) W.target) := by
  obtain ⟨t, ht, hp⟩ := hh
  obtain ⟨hc, hr⟩ : (w.renamed W.target i (W.parked i) W.target).committed = w.committed ∧
      (w.renamed W.target i (W.parked i) W.target).replaced = w.replaced :=
    Warehouse.renamed_of_not_staging (.inr isStagingOf_parkedOf)
  have hta : (w.renamed W.target i (W.parked i) W.target).lookup W.target = some t := by
    rw [Warehouse.lookup_renamed hp, if_pos rfl]
  have hg : (w.renamed W.target i (W.parked i) W.target).lookup (W.parked i) = none := by
    rw [Warehouse.lookup_renamed hp, if_neg parkedOf_ne_target, if_pos rfl]
  have hn : ¬ W.Holds i (w.renamed W.target i (W.parked i) W.target) :=
    fun ⟨u, _, hu⟩ => absurd (hg.symm.trans hu) nofun
  refine ⟨⟨fun u hu => ?_, fun u hu => .inl ?_, fun j hj => ?_, ?_⟩, ?_, hn⟩
  · rw [hc, ht, ← hu, hta]
  · rw [hta, ← hu, hc, ht]
  · by_cases hji : j = i
    · exact absurd (hji ▸ hj) hn
    · exact hi.holder j (holds_renamed hp (.inr (.inr rfl)) (.inl rfl) hc hji hj)
  · rw [hc, hr]
    exact hi.first
  · exact fun j hji => frame_renamed hp (.inr (.inr rfl)) (.inl rfl) hc hr hji

/-- A promote ends what was held. It may replace the version the writer holds, or be a first load where there was
none. -/
theorem promote_step (ho : W.OneLoad) (hin : W.Inv w) (ht : w.lookup (W.staging i) = some t)
    (hcl : W.Holds i w ∨ (w.committed = none ∧ W.Loads i)) : W.Inv (w.renamed W.target i (W.staging i) W.target) ∧
    (∀ j, j ≠ i → W.Frame j w (w.renamed W.target i (W.staging i) W.target)) ∧
    ¬ W.Holds i (w.renamed W.target i (W.staging i) W.target) := by
  obtain ⟨hc, hr⟩ :
      (w.renamed W.target i (W.staging i) W.target).committed = w.lookup (W.staging i) ∧
      (w.renamed W.target i (W.staging i) W.target).replaced = update w.replaced i (some w.committed) :=
    Warehouse.renamed_staging
  have hta : (w.renamed W.target i (W.staging i) W.target).lookup W.target = some t := by
    rw [Warehouse.lookup_renamed ht, if_pos rfl]
  -- the committed version is the staging table, which is under no parked name
  have hnt : ∀ j, ¬ W.Holds j (w.renamed W.target i (W.staging i) W.target) := by
    rintro j ⟨u, hu, hju⟩
    have hn := (w.renamed W.target i (W.staging i) W.target).catalog.identified.inj hju
      (hta.trans (ht.symm.trans (hc.symm.trans hu))) rfl
    exact parkedOf_ne_target hn
  refine ⟨⟨fun u hu => ?_, fun u hu => .inl ?_, fun j hj => absurd hj (hnt j), fun hup k hk hkr => ?_⟩, ?_, hnt i⟩
  · rw [hc, ht, ← hu, hta]
  · rw [hta, ← hu, hc, ht]
  · rw [hr] at hkr
    have hki : k ≠ i := by
      rintro rfl
      exact absurd ((update_self (f := w.replaced) k _).symm.trans hkr) nofun
    rw [update_of_ne hki] at hkr
    have hno := hin.first hup k hk hkr
    obtain ⟨u, hu, -⟩ | ⟨-, hl⟩ := hcl
    · exact absurd (hno.symm.trans hu) nofun
    · exact absurd (ho hup k i hk hl) hki
  · intro j hji
    refine ⟨lookup_renamed_staging ht (.inr (.inl rfl)) (.inl rfl) hji,
      lookup_renamed_parked ht (.inr (.inl rfl)) (.inl rfl) hji, ?_, fun hj => ?_, fun hj => absurd hj (hnt j)⟩
    · rw [hr, update_of_ne hji]
    · obtain hi | ⟨hno, -⟩ := hcl
      · exact absurd (hj.unique hi) hji
      · obtain ⟨u, hu, -⟩ := hj
        exact absurd (hno.symm.trans hu) nofun

end Renames

/-! ## Where a writer is -/

/-- The writer has parked nothing and replaced nothing. -/
structure Fresh (W : Writers A ι) (i : ι) (w : Warehouse A ι) : Prop where
  inv : W.Inv w
  free : ¬ W.Holds i w
  unpromoted : w.replaced i = none

/-- Its staging table is written. -/
structure Staged (W : Writers A ι) (i : ι) (w : Warehouse A ι) : Prop extends W.Fresh i w where
  staged : ∃ t, w.lookup (W.staging i) = some t

/-- It has parked the committed version. -/
structure Claimed (W : Writers A ι) (i : ι) (w : Warehouse A ι) : Prop where
  inv : W.Inv w
  holds : W.Holds i w
  unpromoted : w.replaced i = none
  staged : ∃ t, w.lookup (W.staging i) = some t

/-- The parked version is the one it expects. -/
structure Validated (W : Writers A ι) (i : ι) (w : Warehouse A ι) : Prop extends W.Claimed i w where
  version : w.committed.map Table.snapshotId = W.base i

/-- It has replaced the version it expects. -/
structure Finished (W : Writers A ι) (i : ι) (w : Warehouse A ι) : Prop where
  inv : W.Inv w
  free : ¬ W.Holds i w
  promoted : ∃ before, w.replaced i = some before ∧ before.map Table.snapshotId = W.base i

/-- A writer that fails has changed nothing. -/
def Post (W : Writers A ι) (i : ι) {β : Type} (P : Warehouse A ι → Prop) : Except DataglotError β → Warehouse A ι → Prop
  | .ok _ => P
  | .error _ => W.Fresh i

theorem Fresh.stable : (W.terms i).Stable (W.Fresh i) := by
  intro w w' hr h
  obtain ⟨hi, hf⟩ := hr h.inv
  exact ⟨hi, fun hh => h.free (hf.holds hh), hf.replaced.trans h.unpromoted⟩

theorem Staged.stable : (W.terms i).Stable (W.Staged i) := by
  intro w w' hr h
  obtain ⟨-, hf⟩ := hr h.inv
  obtain ⟨t, ht⟩ := h.staged
  exact ⟨Fresh.stable w w' hr h.toFresh, t, hf.staging.trans ht⟩

theorem Claimed.stable : (W.terms i).Stable (W.Claimed i) := by
  intro w w' hr h
  obtain ⟨hi, hf⟩ := hr h.inv
  obtain ⟨t, ht⟩ := h.staged
  obtain ⟨u, hu, hp⟩ := h.holds
  exact ⟨hi, ⟨u, (hf.held h.holds).trans hu, hf.parked.trans hp⟩, hf.replaced.trans h.unpromoted,
    t, hf.staging.trans ht⟩

theorem Validated.stable : (W.terms i).Stable (W.Validated i) := by
  intro w w' hr h
  obtain ⟨-, hf⟩ := hr h.inv
  refine ⟨Claimed.stable w w' hr h.toClaimed, ?_⟩
  rw [hf.held h.holds]
  exact h.version

theorem Finished.stable : (W.terms i).Stable (W.Finished i) := by
  intro w w' hr h
  obtain ⟨hi, hf⟩ := hr h.inv
  refine ⟨hi, fun hh => h.free (hf.holds hh), ?_⟩
  rw [hf.replaced]
  exact h.promoted

theorem Post.stable {β : Type} (r : Except DataglotError β) : (W.terms i).Stable (W.Post i (W.Finished i) r) := by
  cases r with
  | ok => exact Finished.stable
  | error => exact Fresh.stable

theorem Private.fresh (h : W.Private i w w') (hf : W.Fresh i w) : W.Fresh i w' :=
  ⟨h.inv hf.inv, fun hh => hf.free (h.holds hh), (congrFun h.replaced i).trans hf.unpromoted⟩

theorem Private.finished (h : W.Private i w w') (hf : W.Finished i w) : W.Finished i w' := by
  refine ⟨h.inv hf.inv, fun hh => hf.free (h.holds hh), ?_⟩
  rw [h.replaced]
  exact hf.promoted

/-! ## The outline of an overwrite -/

theorem expected_of_none (h : W.base i = none) : W.expected i = .absent := by
  unfold expected
  rw [h]

theorem expected_of_some {version} (h : W.base i = some version) : W.expected i = .snapshot version := by
  unfold expected
  rw [h]

theorem guar_read {op r} : (W.terms i).guar w op r w := (Private.refl w).guar

section Outline

variable [DecidableEq ι] {error : DataglotError} {β : Type} {purpose : DropPurpose} {P : Warehouse A ι → Prop}

theorem wp_dropStaging (h : W.Fresh i w) :
    wp (W.exec i) (W.terms i) (bestEffortDrop (W.staging i) purpose) (fun _ => W.Fresh i) w := by
  refine Warehouse.wp_dropTable Fresh.stable h (fun w t h _ => ?_) (fun w e h => ?_)
  · exact ⟨Private.drop_staging.guar, Private.drop_staging.fresh h⟩
  · exact ⟨guar_read, h⟩

theorem wp_dropParked (h : W.Staged i w) :
    wp (W.exec i) (W.terms i) (bestEffortDrop (W.parked i) purpose) (fun _ => W.Staged i) w := by
  refine Warehouse.wp_dropTable Staged.stable h (fun w t h _ => ?_) (fun w e h => ⟨guar_read, h⟩)
  have hp := Private.drop_parked h.free
  obtain ⟨u, hu⟩ := h.staged
  refine ⟨hp.guar, hp.fresh h.toFresh, u, ?_⟩
  exact (w.catalog.lookup_drop _ _).trans ((if_neg stagingOf_ne_parkedOf).trans hu)

theorem wp_giveUp (h : W.Fresh i w) : wp (W.exec i) (W.terms i)
      (bestEffortDrop (W.staging i) purpose >>= fun _ => pure (.error error) : Program A (Except DataglotError β))
      (W.Post i P) w :=
  wp_bind.mpr (wp_mono (fun _ _ h => h) (wp_dropStaging h))

theorem wp_clearLeftover {n} (hs : (W.terms i).Stable P)
    (hd : ∀ w, P w → wp (W.exec i) (W.terms i) (bestEffortDrop n purpose) (fun _ => P) w) (h : P w) :
    wp (W.exec i) (W.terms i) (clearLeftover n purpose) (fun _ => P) w := by
  refine Warehouse.wp_read rfl hs h fun w r h => ⟨guar_read, ?_⟩
  dsimp only [Prog.bind]
  split
  · exact hd w h
  · exact h

theorem does_writeBatches_fit (annotated : A.Schema) : ∀ batches rows written,
    (writeBatches annotated (batches.map .ok) rows written).Does (fun op => op.isRead = true)
      fun r => r.isOk = true → Fit annotated batches
  | [], _, _ => fun _ _ hm => absurd hm List.not_mem_nil
  | batch :: rest, rows, written => by
    rw [List.map_cons]
    unfold writeBatches
    split
    next he =>
      refine (does_writeBatches_fit annotated rest rows written).mono fun r hr hok => ?_
      exact List.forall_mem_cons.mpr ⟨fun hro => absurd he hro, hr hok⟩
    next =>
      split
      next => exact fun hok => absurd hok nofun
      next rebound hre =>
        have hf : ∃ rebound, A.tryNew annotated batch = .ok rebound := by
          unfold rebindBatch at hre
          cases hn : A.tryNew annotated batch with
          | error e => rw [hn] at hre; cases hre
          | ok rebound => exact ⟨rebound, rfl⟩
        refine ⟨rfl, fun r => ?_⟩
        cases r with
        | error e => exact fun hok => absurd hok nofun
        | ok =>
          refine (does_writeBatches_fit annotated rest _ _).mono fun r hr hok => ?_
          exact List.forall_mem_cons.mpr ⟨fun _ => hf, hr hok⟩

theorem wp_commitFiles (written dataFiles rows) (h : W.Staged i w) :
    wp (W.exec i) (W.terms i) (commitFiles (W.staging i) written dataFiles rows) (fun _ => W.Staged i) w := by
  unfold commitFiles
  split
  · exact h
  · refine Warehouse.wp_read rfl Staged.stable h fun w r h => ⟨guar_read, ?_⟩
    cases r with
    | error e => exact h
    | ok =>
      refine Warehouse.wp_commitAppend Staged.stable h (fun w t snapshotId nowMs h ht => ?_)
        (fun w e h => ⟨guar_read, h⟩)
      have hp := Private.append ht written snapshotId nowMs
      refine ⟨hp.guar, hp.fresh h.toFresh, ?_⟩
      exact ⟨_, (w.catalog.lookup_append _ _ ht written snapshotId nowMs).trans (if_pos rfl)⟩

theorem wp_writeStreamAndCommit (annotated) (h : W.Staged i w) :
    wp (W.exec i) (W.terms i) (writeStreamAndCommit (W.staging i) ((W.batches i).map .ok) annotated)
      (fun r w => W.Staged i w ∧ (r.isOk = true → Fit annotated (W.batches i))) w := by
  have hf : ∀ w e, W.Staged i w →
      wp (W.exec i) (W.terms i) (pure (.error e) : Program A (Except DataglotError (Nat × Nat)))
        (fun r w => W.Staged i w ∧ (r.isOk = true → Fit annotated (W.batches i))) w := fun w e h => ⟨h, nofun⟩
  refine Warehouse.wp_read rfl Staged.stable h fun w r h => ⟨guar_read, ?_⟩
  cases r with
  | error e => exact hf w _ h
  | ok =>
  refine Warehouse.wp_read rfl Staged.stable h fun w r h => ⟨guar_read, ?_⟩
  cases r with
  | error e => exact hf w _ h
  | ok =>
  refine (wp_bind (p := writeBatches annotated ((W.batches i).map .ok) 0 [])).mpr (wp_mono ?_
    (Warehouse.wp_of_reads Staged.stable (fun w op r _ _ => guar_read)
      (does_writeBatches_fit annotated (W.batches i) 0 []) h))
  rintro (e | ⟨rows, written⟩) w ⟨hfi, h⟩
  · exact hf w e h
  · refine Warehouse.wp_read rfl Staged.stable h fun w r h => ⟨guar_read, ?_⟩
    cases r with
    | error e => exact hf w _ h
    | ok dataFiles => exact wp_mono (fun r w h => ⟨h, fun _ => hfi rfl⟩) (wp_commitFiles written dataFiles rows h)

/-! ### The swap -/

/-- Only the catalog could keep the holder from releasing, and it does not fail. -/
theorem wp_release (h : W.Claimed i w) :
    wp (W.exec i) (W.terms i) (release (W.parked i) W.target (W.staging i) error) (W.Post i P) w := by
  refine Warehouse.wp_renameTable Claimed.stable h (fun w t h _ _ => ?_) (fun w e h hre => ?_)
  · obtain ⟨hi, hf, hfr⟩ := release_step h.inv h.holds
    refine ⟨fun _ => ⟨hi, hf⟩, wp_giveUp ⟨hi, hfr, ?_⟩⟩
    have hr : (w.renamed W.target i (W.parked i) W.target).replaced = w.replaced :=
      (Warehouse.renamed_of_not_staging (.inr isStagingOf_parkedOf)).2
    rw [hr]
    exact h.unpromoted
  · exfalso
    obtain ⟨t, -, ht⟩ := h.holds
    obtain hm | hta := hre fun _ => id
    · exact absurd (hm.symm.trans ht) nofun
    · rw [h.inv.target_of_holds h.holds] at hta
      cases hta

variable {table : Name}

theorem wp_validateParkedVersion {version} (hb : W.base i = some version) (h : W.Claimed i w) :
    wp (W.exec i) (W.terms i) (validateParkedVersion table (W.parked i) W.target (W.staging i) version)
      (W.Post i (W.Validated i)) w := by
  refine Warehouse.wp_loadTable Claimed.stable h (fun w t h ht => ⟨guar_read, ?_⟩)
    (fun w e h => ⟨guar_read, wp_release h⟩)
  obtain ⟨u, hu, hp⟩ := h.holds
  cases hp.symm.trans ht
  dsimp only [Prog.bind]
  split
  next hv =>
    refine ⟨h, ?_⟩
    rw [hu, hb, ← hv]
    rfl
  next => exact wp_release h

theorem wp_park_snapshot {version} (hb : W.base i = some version) (hw : W.Writes i) (h : W.Staged i w) :
    wp (W.exec i) (W.terms i) (park table (W.parked i) W.target (W.staging i) true (.snapshot version))
      (W.Post i (W.Validated i)) w := by
  refine Warehouse.wp_renameTable Staged.stable h (fun w t h ht _ => ?_) (fun w e h _ => ⟨guar_read, wp_giveUp h.toFresh⟩)
  obtain ⟨hi, hf, hh⟩ := park_step h.inv ht ⟨hw, hb ▸ rfl⟩
  refine ⟨fun _ => ⟨hi, hf⟩, wp_validateParkedVersion hb ⟨hi, hh, ?_, ?_⟩⟩
  · have hr : (w.renamed W.target i W.target (W.parked i)).replaced = w.replaced :=
      (Warehouse.renamed_of_not_staging (.inl parkedOf_ne_target)).2
    rw [hr]
    exact h.unpromoted
  · rw [Warehouse.lookup_renamed ht, if_neg stagingOf_ne_parkedOf, if_neg stagingOf_ne_target]
    exact h.staged

theorem finished_of_promote (ho : W.OneLoad) (hi : W.Inv w) {t} (ht : w.lookup (W.staging i) = some t)
    (hc : W.Holds i w ∨ (w.committed = none ∧ W.Loads i)) (hv : w.committed.map Table.snapshotId = W.base i) :
    W.Finished i (w.renamed W.target i (W.staging i) W.target) := by
  obtain ⟨hi', -, hf⟩ := promote_step ho hi ht hc
  have hr : (w.renamed W.target i (W.staging i) W.target).replaced = update w.replaced i (some w.committed) :=
    Warehouse.renamed_staging.2
  refine ⟨hi', hf, w.committed, ?_, hv⟩
  rw [hr, update_self]

theorem wp_promote_snapshot (ho : W.OneLoad) {expected} (h : W.Validated i w) :
    wp (W.exec i) (W.terms i) (promote table (W.parked i) W.target (W.staging i) true expected)
      (W.Post i (W.Finished i)) w := by
  refine Warehouse.wp_renameTable Validated.stable h (fun w t h ht _ => ?_) (fun w e h hr => ?_)
  · obtain ⟨hi, hf, -⟩ := promote_step ho h.inv ht (.inl h.holds)
    refine ⟨fun _ => ⟨hi, hf⟩, ?_⟩
    refine Warehouse.wp_dropTable Finished.stable (finished_of_promote ho h.inv ht (.inl h.holds) h.version)
      (fun w t h _ => ?_) (fun w e h => ⟨guar_read, h⟩)
    have hp := Private.drop_parked h.free
    exact ⟨hp.guar, hp.finished h⟩
  · exfalso
    obtain ⟨t, ht⟩ := h.staged
    obtain hm | hta := hr fun _ => id
    · exact absurd (hm.symm.trans ht) nofun
    · rw [h.inv.target_of_holds h.holds] at hta
      cases hta

/-- A first load that finds the target missing: if there are updates, the table was never there. -/
theorem wp_promote_absent (ho : W.OneLoad) (hl : W.Loads i) (h : W.Staged i w) :
    wp (W.exec i) (W.terms i) (promote table (W.parked i) W.target (W.staging i) false .absent)
      (W.Post i (W.Finished i)) w := by
  refine Warehouse.wp_renameTable Staged.stable h (fun w t h ht hm => ?_) (fun w e h _ => ⟨guar_read, ?_⟩)
  · have hn : w.committed = none := by
      obtain hn | ⟨j, hj⟩ := h.inv.missing hm
      · exact hn
      · exact h.inv.first ⟨j, h.inv.holder j hj⟩ i hl h.unpromoted
    obtain ⟨hi, hf, -⟩ := promote_step ho h.inv ht (.inr ⟨hn, hl⟩)
    refine ⟨fun _ => ⟨hi, hf⟩, finished_of_promote ho h.inv ht (.inr ⟨hn, hl⟩) ?_⟩
    rw [hn, hl.2]
    rfl
  · refine (wp_bind (p := bestEffortDrop (W.staging i) .stagingCleanup)).mpr
      (wp_mono (fun _ w h => ?_) (wp_dropStaging h.toFresh))
    refine Warehouse.wp_read rfl Fresh.stable h fun w r h => ⟨guar_read, ?_⟩
    dsimp only [Prog.bind]
    split <;> exact h

theorem wp_swap (ho : W.OneLoad) (hw : W.Writes i) (h : W.Staged i w) :
    wp (W.exec i) (W.terms i) (swap table (W.parked i) W.target (W.staging i) (W.expected i))
      (W.Post i (W.Finished i)) w := by
  refine Warehouse.wp_read rfl Staged.stable h fun w r h => ⟨guar_read, ?_⟩
  cases r with
  | error e => exact wp_giveUp h.toFresh
  | ok targetExists =>
  cases hb : W.base i with
  | none =>
    rw [expected_of_none hb]
    cases targetExists with
    | true => exact wp_giveUp h.toFresh
    | false => exact wp_promote_absent ho ⟨hw, hb⟩ h
  | some version =>
    rw [expected_of_some hb]
    cases targetExists with
    | false => exact wp_giveUp h.toFresh
    | true =>
      refine (wp_bind (p := park table (W.parked i) W.target (W.staging i) true (.snapshot version))).mpr
        (wp_mono ?_ (wp_park_snapshot hb hw h))
      rintro (e | ⟨⟩) w h
      · exact h
      · exact wp_promote_snapshot ho h

theorem wp_program (ho : W.OneLoad) (h : W.Fresh i w) :
    wp (W.exec i) (W.terms i) (W.program i) (W.Post i (W.Finished i)) w := by
  unfold program overwriteTableChecked overwriteTableStreamChecked
  split
  next => exact h
  next icebergSchema hs =>
  split
  next => exact h
  next annotated ha =>
  refine wp_bind.mpr (wp_mono (fun _ w h => ?_) (wp_clearLeftover Fresh.stable (fun w => wp_dropStaging) h))
  refine Warehouse.wp_createTable Fresh.stable h (fun w nowMs h hmissing => ?_) (fun w e h => ⟨guar_read, h⟩)
  have hp : W.Private i w _ := Private.create icebergSchema nowMs
  have hst : W.Staged i { w with catalog := w.catalog.create (W.staging i) icebergSchema nowMs } := by
    refine ⟨hp.fresh h, ?_⟩
    exact ⟨_, (w.catalog.lookup_create _ _ icebergSchema nowMs).trans (if_pos rfl)⟩
  refine ⟨hp.guar, wp_bind.mpr (wp_mono ?_ (wp_writeStreamAndCommit annotated hst))⟩
  rintro (e | ⟨dataFiles, rows⟩) w ⟨h, hf⟩
  · exact wp_giveUp h.toFresh
  · have hw : W.Writes i := ⟨icebergSchema, annotated, hs, ha, hf rfl⟩
    refine wp_bind.mpr (wp_bind.mpr (wp_mono (fun _ w h => ?_)
      (wp_clearLeftover Staged.stable (fun w => wp_dropParked) h)))
    refine wp_mono ?_ (wp_swap ho hw h)
    rintro (e | ⟨⟩) w h
    · exact h
    · exact h

end Outline

end Writers

end Materialize

end Dataglot
