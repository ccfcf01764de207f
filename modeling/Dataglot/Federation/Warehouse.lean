/-
A warehouse table and the names around it, with what its overwrites have done: the table
committed last, and what each overwrite replaced when it was promoted.

The rules at the end say what a program over the catalog has to show for each operation.
-/
import Dataglot.Federation.Materialize

namespace Dataglot
open Iceberg
open Programs

namespace Materialize

variable {A : Arrow} {ι : Type}

/-! ## Names -/

def stagingOf (target : TableIdent) (token : Name) : TableIdent := ⟨target.ns, stagingName target.name token⟩

def parkedOf (target : TableIdent) (token : Name) : TableIdent := ⟨target.ns, parkedName target.name token⟩

/-- The name is that of a staging table of the target. -/
def isStagingOf (target n : TableIdent) : Bool :=
  n.ns == target.ns && (target.name ++ stagingInfix).isPrefixOf n.name

section Names

variable {target : TableIdent} {token token' : Name}

theorem stagingOf_ne_target : stagingOf target token ≠ target := by
  intro h
  have hl := congrArg (fun n : TableIdent => n.name.length) h
  simp [stagingOf, stagingName, stagingInfix] at hl

theorem parkedOf_ne_target : parkedOf target token ≠ target := by
  intro h
  have hl := congrArg (fun n : TableIdent => n.name.length) h
  simp [parkedOf, parkedName, parkedInfix] at hl

theorem stagingOf_ne_parkedOf : stagingOf target token ≠ parkedOf target token' := by
  intro h
  have hname := congrArg TableIdent.name h
  simp [stagingOf, parkedOf, stagingName, parkedName, stagingInfix, parkedInfix] at hname

theorem stagingOf_inj : stagingOf target token = stagingOf target token' ↔ token = token' := by
  simp [stagingOf, stagingName]

theorem parkedOf_inj : parkedOf target token = parkedOf target token' ↔ token = token' := by
  simp [parkedOf, parkedName]

theorem isStagingOf_stagingOf : isStagingOf target (stagingOf target token) = true := by
  simp [isStagingOf, stagingOf, stagingName]

theorem isStagingOf_parkedOf : isStagingOf target (parkedOf target token) = false := by
  have hn : ¬ (target.name ++ stagingInfix).isPrefixOf (parkedName target.name token) = true := by
    rw [List.isPrefixOf_iff_prefix, parkedName, List.append_assoc]
    simp [stagingInfix, parkedInfix]
  simp [isStagingOf, parkedOf, hn]

end Names

/-! ## History -/

structure Warehouse (A : Arrow) (ι : Type) where
  catalog : Catalog A
  /-- the table promoted last, or the one that was there first -/
  committed : Option (Table A)
  /-- what an overwrite replaced when it was promoted -/
  replaced : ι → Option (Option (Table A))

namespace Warehouse

variable [DecidableEq ι] (w : Warehouse A ι)

def lookup (n : TableIdent) : Option (Table A) := w.catalog.lookup n

variable (target : TableIdent)

/-- The history goes on when a staging table gets the target's name. -/
def record (i : ι) (C : Catalog A) : (op : Op A) → op.Reply → Warehouse A ι
  | .renameTable src dst, .ok () =>
    if dst = target ∧ isStagingOf target src = true then
      ⟨C, w.lookup src, Function.update w.replaced i (some w.committed)⟩
    else { w with catalog := C }
  | _, _ => { w with catalog := C }

def exec (i : ι) (c : Choice) (op : Op A) : op.Reply × Warehouse A ι :=
  ((w.catalog.exec c op).1, w.record target i (w.catalog.exec c op).2 op (w.catalog.exec c op).1)

/-- The operations of the program in a slot, where some choices only are made. -/
def step (admits : Choice → Prop) (i : ι) (c : { c // admits c }) (w : Warehouse A ι)
    (op : Op A) : op.Reply × Warehouse A ι :=
  w.exec target i c.1 op

/-- After a rename that succeeded. -/
def renamed (i : ι) (src dst : TableIdent) : Warehouse A ι :=
  w.record target i (w.catalog.rename src dst) (.renameTable src dst) (.ok ())

variable {w} {target : TableIdent} {i : ι} {c : Choice}

theorem exec_of_eq {op r C} (h : w.catalog.exec c op = (r, C)) :
    w.exec target i c op = (r, w.record target i C op r) := by
  unfold exec
  rw [h]

theorem exec_of_isRead {op} (hr : op.isRead = true) : (w.exec target i c op).2 = w := by
  unfold exec
  rw [Catalog.exec_of_isRead hr]
  cases op <;> first | rfl | cases hr

section Renamed

variable {src dst : TableIdent} {t : Table A} {token : Name}

theorem lookup_renamed (hs : w.lookup src = some t) (m) :
    (w.renamed target i src dst).lookup m = if m = dst then some t else if m = src then none else w.lookup m := by
  have hc : (w.renamed target i src dst).catalog = w.catalog.rename src dst := by
    dsimp only [renamed, record]
    split <;> rfl
  unfold lookup
  rw [hc]
  exact w.catalog.lookup_rename m hs

theorem renamed_of_not_staging (h : dst ≠ target ∨ isStagingOf target src = false) :
    (w.renamed target i src dst).committed = w.committed ∧ (w.renamed target i src dst).replaced = w.replaced := by
  have hn : ¬ (dst = target ∧ isStagingOf target src = true) := by
    rintro ⟨hd, hs⟩
    obtain h | h := h
    · exact h hd
    · exact Bool.false_ne_true (h.symm.trans hs)
  dsimp only [renamed, record]
  rw [if_neg hn]
  exact ⟨rfl, rfl⟩

theorem renamed_staging : (w.renamed target i (stagingOf target token) target).committed = w.lookup
    (stagingOf target token) ∧
    (w.renamed target i (stagingOf target token) target).replaced = Function.update w.replaced i
    (some w.committed) := by
  dsimp only [renamed, record]
  rw [if_pos ⟨rfl, isStagingOf_stagingOf⟩]
  exact ⟨rfl, rfl⟩

end Renamed

/-! ## Rules -/

section Rules

variable {admits : Choice → Prop} {T : Terms (Warehouse A ι) (Op A) Op.Reply} {P : Warehouse A ι → Prop} {β : Type}
  {post : β → Warehouse A ι → Prop} {n : TableIdent}

theorem wp_read {op} {f : op.Reply → Program A β} (hr : op.isRead = true) (hs : T.Stable P) (hP : P w)
    (h : ∀ w r, P w → T.guar w op r w ∧ wp (step target admits i) T (f r) post w) :
    wp (step target admits i) T (.ask op f) post w := by
  refine wp_ask hs hP fun w c hP => ?_
  unfold step
  rw [exec_of_isRead hr]
  exact h w _ hP

theorem wp_of_reads {R} (hs : T.Stable P)
    (hg : ∀ w op r, P w → op.isRead = true → T.guar w op r w) : ∀ {p : Program A β} {w},
    p.Does (fun op => op.isRead = true) R → P w → wp (step target admits i) T p (fun a w => R a ∧ P w) w
  | .done _, _, hp, hP => ⟨hp, hP⟩
  | .ask _ _, _, hp, hP => wp_read hp.1 hs hP fun w r hP =>
    ⟨hg w _ r hP hp.1, wp_of_reads hs hg (hp.2 r) hP⟩

theorem wp_loadTable {f : Except String (Table A) → Program A β} (hs : T.Stable P) (hP : P w)
    (hl : ∀ w t, P w → w.lookup n = some t →
      T.guar w (.loadTable n) (.ok t) w ∧ wp (step target admits i) T (f (.ok t)) post w)
    (hf : ∀ w e, P w → T.guar w (.loadTable n) (.error e) w ∧ wp (step target admits i) T (f (.error e)) post w) :
    wp (step target admits i) T (loadTable n >>= f) post w := by
  refine wp_ask hs hP fun w c hP => ?_
  unfold step
  obtain ⟨e, h⟩ | ⟨t, ht, h⟩ := w.catalog.exec_loadTable (c := c.1) n
  · rw [exec_of_eq h]
    exact hf w e hP
  · rw [exec_of_eq h]
    exact hl w t hP ht

variable {f : Except String Unit → Program A β}

theorem wp_createTable {schema} (hs : T.Stable P) (hP : P w) (hc : ∀ w nowMs, P w → w.lookup n = none →
      T.guar w (.createTable n schema) (.ok ()) { w with catalog := w.catalog.create n schema nowMs } ∧
      wp (step target admits i) T (f (.ok ())) post { w with catalog := w.catalog.create n schema nowMs })
    (hf : ∀ w e, P w →
      T.guar w (.createTable n schema) (.error e) w ∧ wp (step target admits i) T (f (.error e)) post w) :
    wp (step target admits i) T (createTable n schema >>= f) post w := by
  refine wp_ask hs hP fun w c hP => ?_
  unfold step
  obtain ⟨e, h⟩ | ⟨hn, h⟩ := w.catalog.exec_createTable (c := c.1) n schema
  · rw [exec_of_eq h]
    exact hf w e hP
  · rw [exec_of_eq h]
    exact hc w _ hP hn

theorem wp_commitAppend {batches} (hs : T.Stable P) (hP : P w)
    (ha : ∀ w t snapshotId nowMs, P w → w.lookup n = some t →
      T.guar w (.commitAppend n batches) (.ok ()) { w with catalog := w.catalog.append n batches snapshotId nowMs } ∧
      wp (step target admits i) T (f (.ok ())) post { w with catalog := w.catalog.append n batches snapshotId nowMs })
    (hf : ∀ w e, P w →
      T.guar w (.commitAppend n batches) (.error e) w ∧ wp (step target admits i) T (f (.error e)) post w) :
    wp (step target admits i) T (commitAppend n batches >>= f) post w := by
  refine wp_ask hs hP fun w c hP => ?_
  unfold step
  obtain ⟨e, h⟩ | ⟨t, ht, h⟩ := w.catalog.exec_commitAppend (c := c.1) n batches
  · rw [exec_of_eq h]
    exact hf w e hP
  · rw [exec_of_eq h]
    exact ha w t _ _ hP ht

theorem wp_dropTable {purpose} (hs : T.Stable P) (hP : P w) (hd : ∀ w t, P w → w.lookup n = some t →
      T.guar w (.dropTable n purpose) (.ok ()) { w with catalog := w.catalog.drop n } ∧
      wp (step target admits i) T (f (.ok ())) post { w with catalog := w.catalog.drop n })
    (hf : ∀ w e, P w →
      T.guar w (.dropTable n purpose) (.error e) w ∧ wp (step target admits i) T (f (.error e)) post w) :
    wp (step target admits i) T (dropTable n purpose >>= f) post w := by
  refine wp_ask hs hP fun w c hP => ?_
  unfold step
  obtain ⟨e, -, h⟩ | ⟨t, -, ht, h⟩ := w.catalog.exec_dropTable (c := c.1) n purpose
  · rw [exec_of_eq h]
    exact hf w e hP
  · rw [exec_of_eq h]
    exact hd w t hP ht

theorem wp_renameTable {src dst} (hs : T.Stable P) (hP : P w)
    (hr : ∀ w t, P w → w.lookup src = some t → w.lookup dst = none →
      T.guar w (.renameTable src dst) (.ok ()) (w.renamed target i src dst) ∧
      wp (step target admits i) T (f (.ok ())) post (w.renamed target i src dst))
    (hf : ∀ w e, P w → ((∀ c, admits c → c.catalogFault = none) → w.lookup src = none ∨ (w.lookup dst).isSome) →
      T.guar w (.renameTable src dst) (.error e) w ∧ wp (step target admits i) T (f (.error e)) post w) :
    wp (step target admits i) T (renameTable src dst >>= f) post w := by
  refine wp_ask hs hP fun w c hP => ?_
  unfold step
  obtain ⟨e, hre, h⟩ | ⟨t, -, hsr, hd, h⟩ := w.catalog.exec_renameTable (c := c.1) src dst
  · rw [exec_of_eq h]
    exact hf w e hP fun ha => hre (ha c.1 c.2)
  · rw [exec_of_eq h]
    exact hr w t hP hsr hd

end Rules

end Warehouse

/-! ## A small warehouse -/

/-- Nothing fails, a writer makes one file, and it is the hundredth millisecond. -/
def quiet : Choice := ⟨none, none, 1, 5, 1, some 100⟩

/-- Nothing to write. -/
def Arrow.unit : Arrow := ⟨Unit, Unit, Unit, .ok, .ok, fun _ => 0, fun _ => .ok⟩

def emptyTable : Table Arrow.unit := ⟨0, (), none, [], 0⟩

def oneTable : Catalog Arrow.unit := Catalog.empty.create ⟨[], []⟩ () 0

end Materialize

end Dataglot
