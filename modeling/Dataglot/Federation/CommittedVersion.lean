/-
Whether the warehouse keeps the version that was committed last: overwrites of one table
one after the other, with sweeps at any time, any failures of the catalog and crashes
between any two operations.

The swap itself never loses it. What can are the two drops that do not ask where the live
table is: the pre-clean of an overwrite whose token was used by one that stopped with the
live table parked, and the sweep of a table that counts as old by its last commit.
-/
import Dataglot.Federation.Swap

namespace Dataglot
open Iceberg
open Programs

namespace Materialize

variable {A : Arrow}

/-! ## The system -/

/-- Overwrites take turns in one slot; each sweep has its own. -/
abbrev Slot := Option Nat

abbrev AnyChoice := Subtype fun _ : Choice => True

inductive JobResult
  | overwrote (result : Except DataglotError MaterializeOutcome)
  | swept (result : Except DataglotError (List Name))

abbrev Jobs (A : Arrow) : Type := Pool Slot (Warehouse A Slot) (Op A) Op.Reply JobResult

inductive WarehouseEvent (A : Arrow)
  | overwrite (schema : A.Schema) (stream : List (Except String A.Batch)) (token : Name) (expected : ExpectedVersion)
  | sweep (id : Nat) (ns : Name) (minAge : Nat)
  /-- the job in a slot takes its next operation -/
  | run (slot : Slot) (choice : Choice)
  | crash (slot : Slot)

def overwriteJob (target : TableIdent) (schema : A.Schema) (stream : List (Except String A.Batch)) (token : Name)
    (expected : ExpectedVersion) : Program A JobResult := do
  return .overwrote (← overwriteTableStreamChecked ⟨target.ns, target.name, schema, stream, token, expected⟩)

def sweepJob (ns : Name) (minAge : Nat) : Program A JobResult := do
  return .swept (← sweepOrphanMaintenanceTables ns minAge)

namespace Jobs

/-- The version that is there counts as committed. -/
def initial (target : TableIdent) (C : Catalog A) : Jobs A := ⟨⟨C, C.lookup target, fun _ => none⟩, fun _ => none⟩

abbrev exec (target : TableIdent) : Slot → AnyChoice → Warehouse A Slot → (op : Op A) → op.Reply × Warehouse A Slot :=
  Warehouse.step target fun _ => True

def step (target : TableIdent) (s : Jobs A) : WarehouseEvent A → Option (Jobs A)
  | .overwrite schema stream token expected => s.start none (overwriteJob target schema stream token expected)
  | .sweep id ns minAge => s.start (some id) (sweepJob ns minAge)
  | .run slot c => s.run (exec target) slot ⟨c, trivial⟩
  | .crash slot => some (s.crash slot)

end Jobs

/-! ## What is kept -/

/-- The names under which a committed version may stand. -/
def IsHome (target n : TableIdent) : Prop := n = target ∨ ∃ token, n = parkedOf target token

/-- The version committed last is in the catalog, under the target's name or parked. -/
def Kept (target : TableIdent) (w : Warehouse A Slot) : Prop :=
  ∀ t, w.committed = some t → ∃ n, IsHome target n ∧ w.lookup n = some t

/-- The next operation is the drop, for a pre-clean or a sweep, of the version committed last. -/
def DropsCommitted (s : Jobs A) : WarehouseEvent A → Prop
  | .run slot c => ∃ n purpose next, s.procs slot = some (.ask (.dropTable n purpose) next) ∧
      (purpose = .preClean ∨ purpose = .sweep) ∧ c.catalogFault = none ∧
      ∃ t, s.shared.committed = some t ∧ s.shared.lookup n = some t
  | _ => False

section Kept

variable {target : TableIdent} {token : Name} {w : Warehouse A Slot} {slot : Slot}

theorem not_isHome_stagingOf : ¬ IsHome target (stagingOf target token) := by
  rintro (h | ⟨token', h⟩)
  · exact stagingOf_ne_target h
  · exact stagingOf_ne_parkedOf h

theorem Kept.of_lookup {w'} (h : Kept target w) (hc : w'.committed = w.committed)
    (hl : ∀ n, IsHome target n → w'.lookup n = w.lookup n) : Kept target w' := by
  intro t ht
  obtain ⟨n, hn, hnt⟩ := h t (hc ▸ ht)
  exact ⟨n, hn, (hl n hn).trans hnt⟩

theorem Kept.drop_iff (h : Kept target w) (n) :
    Kept target { w with catalog := w.catalog.drop n } ↔ ∀ t, w.committed = some t → w.lookup n ≠ some t := by
  have hl : ∀ m, ({ w with catalog := w.catalog.drop n } : Warehouse A Slot).lookup m =
      if m = n then none else w.lookup m := fun m => w.catalog.lookup_drop m n
  constructor
  · intro hk t ht hn
    obtain ⟨m, -, hm⟩ := hk t ht
    rw [hl] at hm
    split at hm
    next => cases hm
    next hne => exact hne (w.catalog.identified.inj hm hn rfl)
  · intro hno t ht
    obtain ⟨m, hm, hmt⟩ := h t ht
    refine ⟨m, hm, ?_⟩
    have hmn : m ≠ n := by
      rintro rfl
      exact hno t ht hmt
    rw [hl, if_neg hmn]
    exact hmt

theorem Kept.drop_staging (h : Kept target w) :
    Kept target { w with catalog := w.catalog.drop (stagingOf target token) } := by
  refine (h.drop_iff _).mpr fun t ht hn => ?_
  obtain ⟨m, hm, hmt⟩ := h t ht
  exact not_isHome_stagingOf (w.catalog.identified.inj hmt hn rfl ▸ hm)

theorem Kept.rename {src dst t} (h : Kept target w) (hs : w.lookup src = some t)
    (hd : w.lookup dst = none) (hh : IsHome target dst) (hn : dst ≠ target ∨ isStagingOf target src = false) :
    Kept target (w.renamed target slot src dst) := by
  intro u hu
  rw [(Warehouse.renamed_of_not_staging hn).1] at hu
  obtain ⟨m, hm, hmu⟩ := h u hu
  by_cases hms : m = src
  · subst hms
    refine ⟨dst, hh, ?_⟩
    rw [Warehouse.lookup_renamed hs, if_pos rfl, ← hs, hmu]
  · have hmd : m ≠ dst := fun hmd => absurd (hmd ▸ hmu) (by rw [hd]; nofun)
    refine ⟨m, hm, ?_⟩
    rw [Warehouse.lookup_renamed hs, if_neg hmd, if_neg hms]
    exact hmu

theorem kept_promote {t} (hs : w.lookup (stagingOf target token) = some t) :
    Kept target (w.renamed target slot (stagingOf target token) target) := by
  intro u hu
  rw [Warehouse.renamed_staging.1] at hu
  refine ⟨target, .inl rfl, ?_⟩
  rw [Warehouse.lookup_renamed hs, if_pos rfl, ← hs, hu]

end Kept

/-! ## The promises of the jobs -/

def IsSweepOp : Op A → Prop
  | .dropTable n purpose => purpose = .sweep ∧ isMaintenanceArtifact n.name = true
  | op => op.isRead = true

theorem does_sweepEach (now minAge) : ∀ idents dropped,
    (sweepEach now minAge idents dropped : Program A _).Does IsSweepOp fun _ => True
  | [], _ => trivial
  | ident :: rest, dropped => by
    unfold sweepEach
    split
    next ha =>
      refine ⟨rfl, fun r => ?_⟩
      cases r with
      | error e => exact does_sweepEach now minAge rest dropped
      | ok loaded =>
        dsimp only [Prog.bind]
        split
        · exact does_sweepEach now minAge rest dropped
        · refine ⟨⟨rfl, ha⟩, fun r => ?_⟩
          cases r with
          | error e => exact does_sweepEach now minAge rest dropped
          | ok => exact does_sweepEach now minAge rest _
    next => exact does_sweepEach now minAge rest dropped

theorem does_sweepOrphanMaintenanceTables (ns) (minAge) :
    (sweepOrphanMaintenanceTables ns minAge : Program A _).Does IsSweepOp fun _ => True := by
  refine ⟨rfl, fun r => ?_⟩
  cases r with
  | error e => trivial
  | ok idents => exact ⟨rfl, fun clock => (does_sweepEach _ _ idents []).bind fun _ _ => trivial⟩

/-- An overwrite relies on nobody else writing; a sweep relies on nothing. -/
def jobTerms (target : TableIdent) : Slot → Terms (Warehouse A Slot) (Op A) Op.Reply
  | none => {
      rely := fun w w' => w'.committed = w.committed ∧ w'.replaced none = w.replaced none ∧
        ∀ n t, w'.lookup n = some t → w.lookup n = some t
      guar := fun w op _ _ => ∃ token, IsOverwriteOp target token op ∧
        (op = .dropTable (parkedOf target token) .parked → AtTarget target w)
      refl := fun _ => ⟨rfl, rfl, fun _ _ h => h⟩
      trans := fun h h' => ⟨h'.1.trans h.1, h'.2.1.trans h.2.1, fun n t hn => h.2.2 n t (h'.2.2 n t hn)⟩ }
  | some _ => {
      rely := fun _ _ => True
      guar := fun w op _ w' => IsSweepOp op ∧ w'.committed = w.committed ∧ w'.replaced = w.replaced ∧
        ∀ n t, w'.lookup n = some t → w.lookup n = some t
      refl := fun _ => trivial
      trans := fun _ _ => trivial }

section Promises

variable {target : TableIdent}

theorem guar_sweep {id} (w) (c) (op : Op A) (hop : IsSweepOp op) :
    (jobTerms target (some id)).guar w op (Jobs.exec target (some id) c w op).1
    (Jobs.exec target (some id) c w op).2 := by
  refine ⟨hop, ?_⟩
  cases op with
  | dropTable n purpose =>
    dsimp only [Jobs.exec, Warehouse.step]
    obtain ⟨e, -, h⟩ | ⟨t, -, -, h⟩ := w.catalog.exec_dropTable (c := c.1) n purpose
    · rw [Warehouse.exec_of_eq h]
      exact ⟨rfl, rfl, fun _ _ hm => hm⟩
    · rw [Warehouse.exec_of_eq h]
      refine ⟨rfl, rfl, fun m u hm => ?_⟩
      change (w.catalog.drop n).lookup m = some u at hm
      rw [Catalog.lookup_drop] at hm
      split at hm
      · cases hm
      · exact hm
  | createTable | renameTable | commitAppend => cases hop
  | tableExists | loadTable | listTables | file | closeWriter | systemTime =>
    dsimp only [Jobs.exec, Warehouse.step]
    rw [Warehouse.exec_of_isRead rfl]
    exact ⟨rfl, rfl, fun _ _ hm => hm⟩

theorem wp_overwriteJob (schema) (stream) (token)
    (expected) (w : Warehouse A Slot) :
    wp (Jobs.exec target none) (jobTerms target none) (overwriteJob target schema stream token expected)
      (fun _ _ => True) w := by
  have hr : ∀ w w', (jobTerms (A := A) target none).rely w w' → (swapTerms target token none).rely w w' :=
    fun _ _ h => h
  have hg : ∀ w op r w', (swapTerms (A := A) target token none).guar w op r w' →
      (jobTerms target none).guar w op r w' := fun _ _ _ _ h => ⟨token, h⟩
  have ho : wp (Jobs.exec target none) (swapTerms target token none)
      (overwriteTableStreamChecked ⟨target.ns, target.name, schema, stream, token, expected⟩) (fun _ _ => True) w :=
    wp_mono (fun _ _ _ => trivial) (wp_overwrite ⟨target.ns, target.name, schema, stream, token, expected⟩ w)
  exact wp_bind.mpr (wp_weaken hr hg ho)

theorem wp_sweepJob (id) (ns) (minAge) (w : Warehouse A Slot) :
    wp (Jobs.exec target (some id)) (jobTerms target (some id)) (sweepJob ns minAge) (fun _ _ => True) w :=
  wp_of_does guar_sweep ((does_sweepOrphanMaintenanceTables ns minAge).bind fun _ _ => trivial)

/-- The jobs keep their promises in every state of a run. -/
def Jobs.Sound (target : TableIdent) (s : Jobs A) : Prop := Pool.Sound (Jobs.exec target) (jobTerms target) (fun _ _ _ => True) s

theorem Jobs.Sound.step {s s'} {e : WarehouseEvent A} (h : s.Sound target)
    (hstep : Jobs.step target s e = some s') : s'.Sound target := by
  cases e with
  | overwrite schema stream token expected =>
    exact Pool.Sound.start h (wp_overwriteJob schema stream token expected _) hstep
  | sweep id ns minAge => exact Pool.Sound.start h (wp_sweepJob id ns minAge _) hstep
  | crash slot =>
    cases hstep
    exact Pool.Sound.crash h slot
  | run slot c =>
    refine Pool.Sound.run (fun _ _ _ _ _ _ => trivial) ?_ h hstep
    intro i j hij w op r w' hg
    match i, j with
    | some _, _ => trivial
    | none, none => exact absurd rfl hij
    | none, some _ => exact ⟨hg.2.1, congrFun hg.2.2.1 none, hg.2.2.2⟩

/-! ## One operation -/

theorem Kept.dropTable_iff {w : Warehouse A Slot} (h : Kept target w) (slot) (c)
    (n) (purpose) : Kept target (Jobs.exec target slot c w (.dropTable n purpose)).2 ↔
      (c.1.catalogFault = none → ∀ t, w.committed = some t → w.lookup n ≠ some t) := by
  dsimp only [Jobs.exec, Warehouse.step]
  obtain ⟨e, hr, he⟩ | ⟨t, hf, -, he⟩ := w.catalog.exec_dropTable (c := c.1) n purpose
  · rw [Warehouse.exec_of_eq he]
    refine iff_of_true h fun hf t _ hn => ?_
    rw [Warehouse.lookup, hr hf] at hn
    cases hn
  · rw [Warehouse.exec_of_eq he]
    exact (h.drop_iff n).trans ⟨fun hno _ => hno, fun hno => hno hf⟩

theorem Kept.exec_overwrite {w} (h : Kept target w) (slot) (c)
    {token} {op : Op A} (hop : IsOverwriteOp target token op) (hno : ∀ n purpose, op ≠ .dropTable n purpose) :
    Kept target (Jobs.exec target slot c w op).2 := by
  have hh : ∀ n, IsHome target n → n ≠ stagingOf target token := by
    rintro n hn rfl
    exact not_isHome_stagingOf hn
  cases op with
  | tableExists | loadTable | listTables | file | closeWriter | systemTime =>
    dsimp only [Jobs.exec, Warehouse.step]
    rw [Warehouse.exec_of_isRead rfl]
    exact h
  | dropTable n purpose => exact absurd rfl (hno n purpose)
  | createTable n schema =>
    subst hop
    dsimp only [Jobs.exec, Warehouse.step]
    obtain ⟨e, he⟩ | ⟨-, he⟩ := w.catalog.exec_createTable (c := c.1) (stagingOf target token) schema
    · rw [Warehouse.exec_of_eq he]
      exact h
    · rw [Warehouse.exec_of_eq he]
      refine h.of_lookup rfl fun n hn => ?_
      exact (w.catalog.lookup_create n _ schema _).trans (if_neg (hh n hn))
  | commitAppend n batches =>
    subst hop
    dsimp only [Jobs.exec, Warehouse.step]
    obtain ⟨e, he⟩ | ⟨t, ht, he⟩ := w.catalog.exec_commitAppend (c := c.1) (stagingOf target token) batches
    · rw [Warehouse.exec_of_eq he]
      exact h
    · rw [Warehouse.exec_of_eq he]
      refine h.of_lookup rfl fun n hn => ?_
      exact (w.catalog.lookup_append n _ ht batches _ _).trans (if_neg (hh n hn))
  | renameTable src dst =>
    dsimp only [Jobs.exec, Warehouse.step]
    obtain ⟨e, -, he⟩ | ⟨t, -, hs, hd, he⟩ := w.catalog.exec_renameTable (c := c.1) src dst
    · rw [Warehouse.exec_of_eq he]
      exact h
    · rw [Warehouse.exec_of_eq he]
      obtain ⟨rfl, rfl⟩ | ⟨rfl, rfl⟩ | ⟨rfl, rfl⟩ := hop
      · exact h.rename hs hd (.inr ⟨token, rfl⟩) (.inl parkedOf_ne_target)
      · exact h.rename hs hd (.inl rfl) (.inr isStagingOf_parkedOf)
      · exact kept_promote hs

/-- An operation of a job loses the committed version just if it is one of the two drops. -/
theorem Kept.exec_iff {w} (h : Kept target w) {slot} (c) {op : Op A}
    (hg : (jobTerms target slot).guar w op (Jobs.exec target slot c w op).1 (Jobs.exec target slot c w op).2) :
    Kept target (Jobs.exec target slot c w op).2 ↔
      ∀ n purpose, op = .dropTable n purpose → purpose = .preClean ∨ purpose = .sweep → c.1.catalogFault = none →
        ∀ t, w.committed = some t → w.lookup n ≠ some t := by
  by_cases hd : ∃ n purpose, op = .dropTable n purpose
  · obtain ⟨n, purpose, rfl⟩ := hd
    -- a drop that is neither pre-clean nor sweep is of a staging table, or of one that was replaced
    have ho : ¬ (purpose = .preClean ∨ purpose = .sweep) → ∀ t, w.committed = some t → w.lookup n ≠ some t := by
      intro hp t ht hn
      match slot, hg with
      | some _, ⟨⟨hsw, _⟩, _⟩ => exact hp (.inr hsw)
      | none, ⟨token, .inl ⟨hs, _⟩, _⟩ =>
        subst hs
        exact (h.drop_iff _).mp h.drop_staging t ht hn
      | none, ⟨token, .inr ⟨_, .inl hpr⟩, _⟩ => exact hp (.inl hpr)
      | none, ⟨token, .inr ⟨hpa, .inr hpu⟩, hat⟩ =>
        subst hpa
        exact parkedOf_ne_target (hat (by rw [hpu]) t _ ht hn)
    refine (h.dropTable_iff slot c n purpose).trans ⟨?_, ?_⟩
    · rintro hk _ _ ⟨rfl, rfl⟩ _
      exact hk
    · intro hk hf
      by_cases hp : purpose = .preClean ∨ purpose = .sweep
      · exact hk n purpose rfl hp hf
      · exact ho hp
  · have hno : ∀ n purpose, op ≠ .dropTable n purpose := fun n purpose hop => hd ⟨n, purpose, hop⟩
    refine iff_of_true ?_ fun n purpose hop => absurd hop (hno n purpose)
    match slot, hg with
    | none, ⟨token, hop, _⟩ => exact h.exec_overwrite none c hop hno
    | some _, ⟨hop, _⟩ =>
      cases op with
      | dropTable n purpose => exact absurd rfl (hno n purpose)
      | createTable | renameTable | commitAppend => cases hop
      | tableExists | loadTable | listTables | file | closeWriter | systemTime =>
        dsimp only [Jobs.exec, Warehouse.step]
        rw [Warehouse.exec_of_isRead rfl]
        exact h

/-! ## Runs -/

end Promises

/-- An overwrite stops right after it has parked the live table. -/
def stopsParked : List (WarehouseEvent Arrow.unit) :=
  .overwrite () [] [] .any :: List.replicate 8 (.run none quiet) ++ [.crash none]

/-- It is tried again with the same token, up to its pre-clean. -/
def retried : List (WarehouseEvent Arrow.unit) := .overwrite () [] [] .any :: List.replicate 8 (.run none quiet)

/-- A sweep of everything that has not been written for ten milliseconds finds the parked table. -/
def swept : List (WarehouseEvent Arrow.unit) := .sweep 0 [] 10 :: List.replicate 4 (.run (some 0) quiet)

/-- The identity of the committed version, and those in the catalog. -/
def identities (s : Jobs A) : Option Nat × List Nat :=
  (s.shared.committed.map Table.uuid, s.shared.catalog.tables.entries.map fun e => e.2.uuid)

theorem not_kept {target} {s : Jobs A} {id ids} (h : identities s = (some id, ids))
    (hid : id ∉ ids) : ¬ Kept target s.shared := by
  intro hk
  obtain ⟨hc, hi⟩ := Prod.mk.inj h
  obtain ⟨t, ht, hu⟩ := Option.map_eq_some_iff.mp hc
  obtain ⟨n, -, hn⟩ := hk t ht
  apply hid
  rw [← hi, ← hu]
  exact List.mem_map_of_mem (AList.mem_lookup_iff.mp hn)

end Materialize

end Dataglot
