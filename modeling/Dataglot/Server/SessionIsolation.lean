/-
What sessions resolve names to, along every interleaving of connections and
updates of the registries of catalogs and views.

A connection goes through five steps, one for each time it reads a registry: the
session is built with the boot org's catalogs, then with its views; the boot
snapshot is read once more for the observer; the observer puts the org's catalogs in
place, then the org's views. A registry may be updated between any two of them.
-/
import Dataglot.Library.FreshName
import Dataglot.Library.Runs
import Dataglot.Server.SessionCatalogs

namespace Dataglot
open CatalogList Option AList

/-! ## Connections -/

/-- How far a connection has come, with what it has read so far: the boot org's catalogs and views that its
session was built with, the boot snapshot of the observer, its org with the org's catalogs. A started session
keeps what it was given. -/
inductive Connection (P V : Type)
  | opened (catalogs : CatalogSnapshot P)
  | viewed (catalogs : CatalogSnapshot P) (views : OrgViews V)
  | captured (catalogs : CatalogSnapshot P) (views : OrgViews V) (boot : CatalogSnapshot P)
  | swapped (catalogs : CatalogSnapshot P) (views : OrgViews V) (boot : CatalogSnapshot P) (org : String)
      (orgCatalogs : CatalogSnapshot P)
  | started (org : String) (orgCatalogs : CatalogSnapshot P) (orgViews : OrgViews V)

/-- The registries, the catalog lists and the connections. The list of a connection stands under its id, that of
the distributed template under none. -/
structure ServerState (P V : Type) where
  catalogs : HashMap (CatalogSnapshot P)
  views : HashMap (OrgViews V)
  lists : Option Nat → CatalogList P V
  connections : Nat → Option (Connection P V)

inductive SessionEvent (P V : Type)
  /-- some org's catalogs change -/
  | updateCatalogs (registry : HashMap (CatalogSnapshot P))
  /-- some org's views change -/
  | updateViews (registry : HashMap (OrgViews V))
  /-- `create_session` registers the boot org's catalogs -/
  | createSession (id : Nat)
  /-- `create_session` registers the boot org's views -/
  | registerBootViews (id : Nat)
  /-- the boot snapshot is read for the observer -/
  | captureBoot (id : Nat)
  /-- the observer swaps catalogs -/
  | swapCatalogs (id : Nat) (org : String)
  /-- the observer swaps views -/
  | swapViews (id : Nat)
  /-- a query is planned, which reads the session's list -/
  | plan (id : Nat)
  | close (id : Nat)

variable {P V : Type}

namespace ServerState

variable (C : CatalogConfig P V)

def boot (catalogs : HashMap (CatalogSnapshot P)) (views : HashMap (OrgViews V)) : ServerState P V :=
  ⟨catalogs, views, fun _ => C.template, fun _ => none⟩

def currentCatalogsForOrg (s : ServerState P V) (org : String) : CatalogSnapshot P :=
  if C.controlPlane then (s.catalogs.lookup org).getD ∅ else C.catalogs

/-- The views of an org in the registry, none if the org has no entry. -/
def viewsForOrg (s : ServerState P V) (org : String) : OrgViews V := (s.views.lookup org).getD .empty

/-- Where the list of a connection is: of its own, or the template's. -/
def cell (id : Nat) : Option Nat :=
  match C.mode with
  | .singleNode => some id
  | .distributed => none

def listOf (s : ServerState P V) (id : Nat) : CatalogList P V := s.lists (cell C id)

/-- A step of a connection: it writes the connection's list, and goes on. -/
def write (s : ServerState P V) (id : Nat) (l : CatalogList P V) (c : Connection P V) : ServerState P V :=
  { s with
    lists := fun n => if n = cell C id then l else s.lists n
    connections := fun i => if i = id then some c else s.connections i }

/-- The list that `create_session` starts from (`base_session_context`). -/
def baseList (s : ServerState P V) : CatalogList P V :=
  match C.mode with
  | .singleNode => C.freshList
  | .distributed => s.lists none

/-- The observer's catalog swap, for an org other than the boot org. -/
def swappedList (l : CatalogList P V) (boot : CatalogSnapshot P) (org : String)
    (orgCatalogs : CatalogSnapshot P) : CatalogList P V :=
  if org ≠ C.bootOrg ∧ C.controlPlane then shadowCatalogs (registerOverlayCatalogs l orgCatalogs) boot orgCatalogs
  else l

/-- What an event does, none where it cannot happen. -/
def step (s : ServerState P V) : SessionEvent P V → Option (ServerState P V)
  | .updateCatalogs registry => some { s with catalogs := registry }
  | .updateViews registry => some { s with views := registry }
  | .createSession id =>
    match s.connections id with
    | none =>
      let catalogs := s.currentCatalogsForOrg C C.bootOrg
      some (s.write C id (ensureRuntimeCatalog (registerOverlayCatalogs (s.baseList C) catalogs)) (.opened catalogs))
    | some _ => none
  | .registerBootViews id =>
    match s.connections id with
    | some (.opened catalogs) =>
      let views := s.viewsForOrg C.bootOrg
      some (s.write C id (registerOrgViews C (s.listOf C id) views) (.viewed catalogs views))
    | _ => none
  | .captureBoot id =>
    match s.connections id with
    | some (.viewed catalogs views) =>
      some (s.write C id (s.listOf C id) (.captured catalogs views (s.currentCatalogsForOrg C C.bootOrg)))
    | _ => none
  | .swapCatalogs id org =>
    match s.connections id with
    | some (.captured catalogs views boot) =>
      let orgCatalogs := s.currentCatalogsForOrg C org
      some (s.write C id (swappedList C (s.listOf C id) boot org orgCatalogs) (.swapped catalogs views boot org orgCatalogs))
    | _ => none
  | .swapViews id =>
    match s.connections id with
    | some (.swapped _ _ _ org orgCatalogs) =>
      let views := s.viewsForOrg org
      let l := s.listOf C id
      let l' := if org = C.bootOrg then l else Dataglot.swapViews C l (s.viewsForOrg C.bootOrg) views
      some (s.write C id l' (.started org orgCatalogs views))
    | _ => none
  | .plan id => if (s.connections id).isSome then some s else none
  | .close id =>
    if (s.connections id).isSome then
      some { s with connections := fun i => if i = id then none else s.connections i }
    else none

/-! ## What is asked of a step -/

/-- Exactly the catalogs and views of a snapshot: a view by its name, and any other name of a catalog in the
catalog's source. -/
def ofOrg (catalogs : CatalogSnapshot P) (views : OrgViews V) (path : TablePath) : Option (Resolved P V) :=
  match views.at C path with
  | some v => some (.view v)
  | none => (catalogs.lookup path.catalog).map .source

/-- No name changes its meaning for another connection. -/
def Undisturbed (s : ServerState P V) (id : Nat) (s' : ServerState P V) : Prop :=
  ∀ other, other ≠ id → s.connections other ≠ none → ∀ path, (s'.listOf C other).resolve path = (s.listOf C other).resolve path

/-- The steps of a connection leave the others alone, and a session of another org than the boot org resolves,
once it is started, exactly what it was given. -/
def Isolated (s : ServerState P V) (e : SessionEvent P V) (s' : ServerState P V) : Prop :=
  match e with
  | .createSession id | .registerBootViews id | .captureBoot id | .swapCatalogs id _ => Undisturbed C s id s'
  | .swapViews id => Undisturbed C s id s' ∧ ∀ org catalogs views, s'.connections id = some (.started org catalogs views) →
      org ≠ C.bootOrg → ∀ path, (s'.listOf C id).resolve path = ofOrg C catalogs views path
  | .updateCatalogs _ | .updateViews _ | .plan _ | .close _ => True

/-! ## When it holds -/

/-- In single-node mode a startup is known from what was read: each catalog the session was built with is one of
the org's or was still the boot org's when the snapshot for the observer was read; the org's views belong in
schemas in memory that the swap leaves there; a view the session was built with, where its schema is left, is
still the boot org's when views are swapped, or the org has it too. -/
structure CleanReads (C : CatalogConfig P V) (given : CatalogSnapshot P) (views : OrgViews V) (boot org : CatalogSnapshot P)
    (bootViews orgViews : OrgViews V) : Prop where
  catalogs : ∀ n ∈ given, n ∈ org ∨ n ∈ boot
  homes : ∀ path v, orgViews.at C path = some v →
    path.catalog ∉ org ∧ path.catalog ∉ boot ∧ (ensureRuntimeCatalog C.freshList).hasSchema path
  dropped : ∀ path v, views.at C path = some v → path.catalog ∉ org → path.catalog ∉ boot →
    (ensureRuntimeCatalog C.freshList).hasSchema path → (bootViews.at C path).isSome ∨ orgViews.at C path = some v

/-- In distributed mode it depends on what the shared list has become: its sources are the org's, the org's views
have their schemas, and every view in the list is about to be taken out or the org's. -/
structure CleanList (C : CatalogConfig P V) (l : CatalogList P V) (org : CatalogSnapshot P)
    (bootViews orgViews : OrgViews V) : Prop where
  catalogs : ∀ n, l.sourceAt n = org.lookup n
  homes : ∀ path v, orgViews.at C path = some v → l.hasSchema path
  dropped : ∀ path v, l.viewAt path = some v → (bootViews.at C path).isSome ∨ orgViews.at C path = some v

def Alone (s : ServerState P V) (id : Nat) : Prop :=
  C.mode = .singleNode ∨ ∀ other, other ≠ id → s.connections other = none

/-- The condition on a step. Where another connection reads the same list, the step must write what is there. -/
def Clean (s : ServerState P V) (e : SessionEvent P V) (_s' : ServerState P V) : Prop :=
  match e with
  | .createSession id => Alone C s id ∨
      ∀ n p, (s.currentCatalogsForOrg C C.bootOrg).lookup n = some p → (s.lists none).sourceAt n = some p
  | .registerBootViews id => Alone C s id ∨ ∀ path, (s.lists none).hasSchema path → (s.lists none).viewAt path = none →
      (s.viewsForOrg C.bootOrg).at C path = none
  | .swapCatalogs id org => ∀ given views boot, s.connections id = some (.captured given views boot) →
      org ≠ C.bootOrg → C.controlPlane → Alone C s id ∨
      (∀ n p, (s.currentCatalogsForOrg C org).lookup n = some p → (s.lists none).sourceAt n = some p) ∧
      ∀ path, path.catalog ∈ boot → path.catalog ∉ s.currentCatalogsForOrg C org → (s.lists none).resolve path = none
  | .swapViews id => ∀ given views boot org catalogs, s.connections id = some (.swapped given views boot org catalogs) →
      org ≠ C.bootOrg →
      (Alone C s id ∨ ∀ path, (s.lists none).hasSchema path →
        (if ((s.viewsForOrg C.bootOrg).at C path).isSome then none else (s.lists none).viewAt path).or
          ((s.viewsForOrg org).at C path) = (s.lists none).viewAt path) ∧
      match C.mode with
      | .singleNode => CleanReads C given views boot catalogs (s.viewsForOrg C.bootOrg) (s.viewsForOrg org)
      | .distributed => CleanList C (s.lists none) catalogs (s.viewsForOrg C.bootOrg) (s.viewsForOrg org)
  | .updateCatalogs _ | .updateViews _ | .captureBoot _ | .plan _ | .close _ => True

end ServerState

/-! ## Names after a step -/

section Names

variable {C : CatalogConfig P V} {l : CatalogList P V}

theorem CatalogList.resolve_eq_of {l l' : CatalogList P V} {path} (hl : l path.catalog = l' path.catalog) :
    l.resolve path = l'.resolve path := by
  simp only [resolve, sourceAt, viewAt, hl]

theorem CatalogList.sourceAt_eq_some {n p} : l.sourceAt n = some p ↔ l n = some (.source p) := by
  unfold sourceAt
  rcases l n with _ | q | schemas <;> simp

theorem CatalogList.resolve_eq_source {path p} :
    l.resolve path = some (.source p) ↔ l path.catalog = some (.source p) := by
  rw [← sourceAt_eq_some, resolve]
  cases l.sourceAt path.catalog <;> simp

theorem resolve_ensureRuntimeCatalog (path) : (ensureRuntimeCatalog l).resolve path = l.resolve path := by
  unfold ensureRuntimeCatalog
  split
  next => rfl
  next hno =>
    by_cases hn : path.catalog = runtimeCatalog
    · have hl : l path.catalog = none := by
        rw [hn]
        exact Option.not_isSome_iff_eq_none.mp hno
      have he : (Option.bind (if path.schema = runtimeSchema then some fun _ => none else none) fun tables =>
          tables path.table) = (none : Option V) := by
        split <;> rfl
      have hne : ∀ catalog, l.registerCatalog runtimeCatalog catalog path.catalog = some catalog := fun catalog => by
        rw [registerCatalog, if_pos hn]
      simp only [resolve, sourceAt, viewAt, hne, hl, he]
    · exact resolve_eq_of (by simp [registerCatalog, hn])

theorem resolve_shadowCatalogs_iff (boot org) :
    (∀ path, (shadowCatalogs (registerOverlayCatalogs l org) boot org).resolve path = l.resolve path) ↔
      (∀ n p, org.lookup n = some p → l.sourceAt n = some p) ∧
        ∀ path, path.catalog ∈ boot → path.catalog ∉ org → l.resolve path = none := by
  have hli : ∀ n p, org.lookup n = some p →
      shadowCatalogs (registerOverlayCatalogs l org) boot org n = some (.source p) := by
    intro n p hp
    have hm : n ∈ org := lookup_isSome.mp (by simp [hp])
    simp only [shadowCatalogs_apply, hm, not_true_eq_false, and_false, if_false, registerOverlayCatalogs_apply, hp]
  have hs : ∀ path : TablePath, path.catalog ∈ boot → path.catalog ∉ org →
      (shadowCatalogs (registerOverlayCatalogs l org) boot org).resolve path = none := by
    intro path hb ho
    simp [resolve, sourceAt, viewAt, shadowCatalogs_apply, hb, ho]
  constructor
  · intro h
    refine ⟨fun n p hp => ?_, fun path hb ho => (h path).symm.trans (hs path hb ho)⟩
    have hso := (h ⟨n, "", ""⟩).symm.trans (resolve_eq_source.mpr (hli n p hp))
    exact sourceAt_eq_some.mpr (resolve_eq_source.mp hso)
  · rintro ⟨hsa, hn⟩ path
    cases hl : org.lookup path.catalog with
    | some p =>
      apply resolve_eq_of
      rw [hli _ p hl, sourceAt_eq_some.mp (hsa _ p hl)]
    | none =>
      have hm := lookup_eq_none.mp hl
      by_cases hb : path.catalog ∈ boot
      · rw [hs path hb hm, hn path hb hm]
      · apply resolve_eq_of
        rw [shadowCatalogs_apply, if_neg fun h => hb h.1, registerOverlayCatalogs_apply, hl]

/-- Listing sources changes no name exactly when they are listed. -/
theorem resolve_registerOverlayCatalogs_iff (catalogs) :
    (∀ path, (registerOverlayCatalogs l catalogs).resolve path = l.resolve path) ↔
      ∀ n p, catalogs.lookup n = some p → l.sourceAt n = some p :=
  (resolve_shadowCatalogs_iff ∅ catalogs).trans (and_iff_left nofun)

theorem resolve_swapViews_iff (boot org) :
    (∀ path, (swapViews C l boot org).resolve path = l.resolve path) ↔ ∀ path, l.hasSchema path →
      (if (boot.at C path).isSome then none else l.viewAt path).or (org.at C path) = l.viewAt path := by
  refine forall_congr' fun path => ?_
  unfold resolve
  rw [sourceAt_swapViews, viewAt_swapViews]
  cases hs : l.sourceAt path.catalog with
  | some p => simp [hasSchema_of_sourceAt hs]
  | none =>
    cases hsc : l.hasSchema path with
    | false => simp [viewAt_of_hasSchema hsc]
    | true =>
      simp only [if_true, true_imp_iff]
      exact (map_injective fun a b h => by cases h; rfl).eq_iff

/-- Registering views changes no name exactly when no free place in a schema is one of theirs. -/
theorem resolve_registerOrgViews_iff (views) :
    (∀ path, (registerOrgViews C l views).resolve path = l.resolve path) ↔
      ∀ path, l.hasSchema path → l.viewAt path = none → views.at C path = none := by
  rw [registerOrgViews_eq, resolve_swapViews_iff]
  refine forall₂_congr fun path _ => ?_
  have he : (OrgViews.empty : OrgViews V).at C path = none := rfl
  cases l.viewAt path <;> simp [he]

end Names

/-! ## A started session -/

section Started

variable {C : CatalogConfig P V}

theorem OrgViews.exists_at_eq_none (views : OrgViews V) (catalog schema) :
    ∃ table, views.at C ⟨catalog, schema, table⟩ = none := by
  obtain ⟨table, ht⟩ := FreshName.exists_notMem (List.finite_toSet views.views.keys)
  refine ⟨table, ?_⟩
  have hn : views.views.entries.dlookup table = none := List.dlookup_eq_none.mpr ht
  rw [OrgViews.at, viewIn, hn, bind_none]

theorem resolve_swapViews_eq_ofOrg_at (l) (catalogs) (boot org)
    (path) : (swapViews C l boot org).resolve path = ServerState.ofOrg C catalogs org path ↔
      (org.at C path = none → l.sourceAt path.catalog = catalogs.lookup path.catalog) ∧
      (org.at C path ≠ none → l.hasSchema path) ∧
      ∀ v, l.viewAt path = some v → (boot.at C path).isSome ∨ org.at C path = some v := by
  rw [resolve, sourceAt_swapViews, viewAt_swapViews, ServerState.ofOrg]
  cases hso : l.sourceAt path.catalog with
  | some p =>
    have hv := viewAt_of_sourceAt hso
    have hs := hasSchema_of_sourceAt hso
    cases ho : org.at C path with
    | some w => simp [hs]
    | none => cases catalogs.lookup path.catalog <;> simp [hv]
  | none =>
    cases hs : l.hasSchema path with
    | false =>
      have hv := viewAt_of_hasSchema hs
      cases ho : org.at C path with
      | some w => simp
      | none => cases catalogs.lookup path.catalog <;> simp [hv]
    | true =>
      -- what stands there is taken out, or is the org's view
      cases ho : org.at C path <;> cases l.viewAt path <;> cases (boot.at C path).isSome <;>
        cases catalogs.lookup path.catalog <;> simp [eq_comm]

/-- **A session resolves exactly its org's objects** when the list it swaps views in is clean. -/
theorem resolve_swapViews_eq_ofOrg_iff (l : CatalogList P V) (catalogs) (boot org) :
    (∀ path, (swapViews C l boot org).resolve path = ServerState.ofOrg C catalogs org path) ↔
      ServerState.CleanList C l catalogs boot org := by
  simp only [resolve_swapViews_eq_ofOrg_at]
  constructor
  · intro h
    refine ⟨fun n => ?_, fun path v hv => (h path).2.1 (by simp [hv]), fun path => (h path).2.2⟩
    obtain ⟨table, ht⟩ := org.exists_at_eq_none (C := C) n ""
    exact (h ⟨n, "", table⟩).1 ht
  · rintro ⟨hc, hh, hd⟩ path
    refine ⟨fun _ => hc _, fun hne => ?_, hd path⟩
    obtain ⟨v, hv⟩ := ne_none_iff_exists'.mp hne
    exact hh path v hv

/-! ### In single-node mode -/

/-- The list of a session that was built with catalogs and views. -/
def builtList (C : CatalogConfig P V) (catalogs : CatalogSnapshot P) (views : OrgViews V) : CatalogList P V :=
  registerOrgViews C (ensureRuntimeCatalog (registerOverlayCatalogs C.freshList catalogs)) views

theorem ensureRuntimeCatalog_registerOverlayCatalogs (l : CatalogList P V) (catalogs) (n) :
    ensureRuntimeCatalog (registerOverlayCatalogs l catalogs) n = match catalogs.lookup n with
      | some p => some (.source p)
      | none => ensureRuntimeCatalog l n := by
  unfold ensureRuntimeCatalog
  by_cases hn : n = runtimeCatalog
  · subst hn
    cases hlo : catalogs.lookup runtimeCatalog with
    | some p => simp [registerOverlayCatalogs_apply, hlo]
    | none =>
      cases hl : l runtimeCatalog <;> simp [registerOverlayCatalogs_apply, hlo, hl, registerCatalog]
  · have hs : ∀ (l : CatalogList P V) catalog, (if (l runtimeCatalog).isSome then l
        else l.registerCatalog runtimeCatalog catalog) n = l n := by
      intro l catalog
      split
      next => rfl
      next => rw [registerCatalog, if_neg hn]
    have ha := registerOverlayCatalogs_apply l catalogs n
    cases hlo : catalogs.lookup n with
    | none => rw [hs, hs, ha, hlo]
    | some p => rw [hs, ha, hlo]

theorem resolve_ensureRuntimeCatalog_freshList (path) :
    (ensureRuntimeCatalog C.freshList).sourceAt path.catalog = none ∧
      (ensureRuntimeCatalog C.freshList).viewAt path = none := by
  have hf : C.freshList.resolve path = none := by
    unfold resolve sourceAt viewAt CatalogConfig.freshList
    cases C.localSchemas.lookup path.catalog with
    | none => rfl
    | some schemas => by_cases hs : path.schema ∈ schemas <;> simp [hs]
  rw [← resolve_ensureRuntimeCatalog, resolve] at hf
  split at hf
  next => cases hf
  next hso => exact ⟨hso, map_eq_none_iff.mp hf⟩

section Built

variable (catalogs : CatalogSnapshot P) (views : OrgViews V) (path : TablePath)

theorem sourceAt_builtList (n) : (builtList C catalogs views).sourceAt n = catalogs.lookup n := by
  have hl : (ensureRuntimeCatalog C.freshList).sourceAt n = none :=
    (resolve_ensureRuntimeCatalog_freshList ⟨n, "", ""⟩).1
  rw [builtList, registerOrgViews_eq, sourceAt_swapViews, sourceAt, ensureRuntimeCatalog_registerOverlayCatalogs]
  cases catalogs.lookup n with
  | some p => rfl
  | none => exact hl

theorem hasSchema_builtList : (builtList C catalogs views).hasSchema path =
    (decide (path.catalog ∉ catalogs) && (ensureRuntimeCatalog C.freshList).hasSchema path) := by
  rw [builtList, registerOrgViews_eq, hasSchema_swapViews, hasSchema, ensureRuntimeCatalog_registerOverlayCatalogs]
  cases hl : catalogs.lookup path.catalog with
  | some p =>
    have hm : path.catalog ∈ catalogs := lookup_isSome.mp (by simp [hl])
    simp [hm]
  | none =>
    have hm : path.catalog ∉ catalogs := lookup_eq_none.mp hl
    simp [hm, hasSchema]

theorem viewAt_builtList : (builtList C catalogs views).viewAt path =
    if (builtList C catalogs views).hasSchema path then views.at C path else none := by
  have hl : (ensureRuntimeCatalog (registerOverlayCatalogs C.freshList catalogs)).viewAt path = none := by
    unfold viewAt
    rw [ensureRuntimeCatalog_registerOverlayCatalogs]
    cases catalogs.lookup path.catalog with
    | some p => rfl
    | none => exact (resolve_ensureRuntimeCatalog_freshList path).2
  rw [builtList, registerOrgViews_eq, hasSchema_swapViews, viewAt_swapViews, hl, ite_self, none_or]

end Built

theorem swappedList_builtList {given boot catalogs} (views) {org} (hor : org ≠ C.bootOrg)
    (hs : C.controlPlane = false → given = C.catalogs ∧ boot = C.catalogs ∧ catalogs = C.catalogs)
    (path) :
    let l := ServerState.swappedList C (builtList C given views) boot org catalogs
    (l.sourceAt path.catalog = if path.catalog ∈ catalogs ∨ path.catalog ∈ boot then catalogs.lookup path.catalog
      else given.lookup path.catalog) ∧
      (l.hasSchema path = true ↔ path.catalog ∉ catalogs ∧ path.catalog ∉ boot ∧ path.catalog ∉ given ∧
        (ensureRuntimeCatalog C.freshList).hasSchema path = true) ∧
      l.viewAt path = if l.hasSchema path then views.at C path else none := by
  intro l
  cases hpl : C.controlPlane with
  | false =>
    -- no registry of catalogs: the list stays, and all snapshots are the static one
    obtain ⟨rfl, rfl, rfl⟩ := hs hpl
    have hl : l = builtList C C.catalogs views := by
      simp only [l, ServerState.swappedList, hpl, Bool.false_eq_true, and_false, if_false]
    rw [hl, sourceAt_builtList, hasSchema_builtList]
    refine ⟨by simp, by simp, ?_⟩
    rw [viewAt_builtList, hasSchema_builtList]
  | true =>
    have hl : l = shadowCatalogs (registerOverlayCatalogs (builtList C given views) catalogs) boot catalogs := by
      simp only [l, ServerState.swappedList, hpl, hor, ne_eq, not_false_eq_true, and_true, if_true]
    have ha := shadowCatalogs_apply (registerOverlayCatalogs (builtList C given views) catalogs) boot catalogs path.catalog
    rw [← hl, registerOverlayCatalogs_apply] at ha
    by_cases ho : path.catalog ∈ catalogs
    · obtain ⟨p, hp⟩ := isSome_iff_exists.mp (lookup_isSome.mpr ho)
      have he : l path.catalog = some (.source p) := by simpa [ho, hp] using ha
      simp [sourceAt, hasSchema, viewAt, he, ho, hp]
    · have hn := lookup_eq_none.mpr ho
      by_cases hb : path.catalog ∈ boot
      · have he : l path.catalog = some (.memory fun _ => none) := by simpa [ho, hb] using ha
        simp [sourceAt, hasSchema, viewAt, he, hb, hn]
      · have he : l path.catalog = builtList C given views path.catalog := by
          simpa [ho, hb, hn] using ha
        have hso : l.sourceAt path.catalog = given.lookup path.catalog := by
          rw [← sourceAt_builtList (C := C) given views]
          simp only [sourceAt, he]
        have hsc : l.hasSchema path = (builtList C given views).hasSchema path := by
          simp only [hasSchema, he]
        have hv : l.viewAt path = (builtList C given views).viewAt path := by
          simp only [viewAt, he]
        rw [hso, hv, hsc, viewAt_builtList]
        refine ⟨by simp [ho, hb], ?_, rfl⟩
        rw [hasSchema_builtList]
        simp [ho, hb]

/-- The list in which a session of its own swaps views is clean exactly when what was read is. -/
theorem cleanList_swappedList_iff {given boot catalogs views bootViews orgViews org} (hor : org ≠ C.bootOrg)
    (hst : C.controlPlane = false → given = C.catalogs ∧ boot = C.catalogs ∧ catalogs = C.catalogs) :
    ServerState.CleanList C (ServerState.swappedList C (builtList C given views) boot org catalogs) catalogs bootViews
        orgViews ↔
      ServerState.CleanReads C given views boot catalogs bootViews orgViews := by
  have hl := fun path => swappedList_builtList views hor hst path
  constructor
  · rintro ⟨hc, hh, hd⟩
    have hg : ∀ n ∈ given, n ∈ catalogs ∨ n ∈ boot := by
      intro n hn
      by_contra hno
      have hs := (hl ⟨n, "", ""⟩).1
      rw [hc, if_neg hno, lookup_eq_none.mpr fun h => hno (.inl h)] at hs
      exact lookup_eq_none.mp hs.symm hn
    refine ⟨hg, fun path v hv => ?_, fun path v hv ho hb hsc => ?_⟩
    · obtain ⟨h₁, h₂, -, h₃⟩ := (hl path).2.1.mp (hh path v hv)
      exact ⟨h₁, h₂, h₃⟩
    · have hno : path.catalog ∉ given := fun h => (hg _ h).elim ho hb
      refine hd path v ?_
      rw [(hl path).2.2, if_pos ((hl path).2.1.mpr ⟨ho, hb, hno, hsc⟩), hv]
  · rintro ⟨hg, hh, hd⟩
    refine ⟨fun n => ?_, fun path v hv => ?_, fun path v hv => ?_⟩
    · have hs := (hl ⟨n, "", ""⟩).1
      rw [hs]
      split
      next => rfl
      next hno =>
        rw [lookup_eq_none.mpr fun h => hno (hg n h), lookup_eq_none.mpr fun h => hno (.inl h)]
    · obtain ⟨h₁, h₂, h₃⟩ := hh path v hv
      exact (hl path).2.1.mpr ⟨h₁, h₂, fun h => (hg _ h).elim h₁ h₂, h₃⟩
    · rw [(hl path).2.2] at hv
      split at hv
      next hsc =>
        obtain ⟨h₁, h₂, -, h₃⟩ := (hl path).2.1.mp hsc
        exact hd path v hv h₁ h₂ h₃
      next => cases hv

end Started

/-! ## Along a run -/

namespace ServerState

variable {C : CatalogConfig P V} {s s' : ServerState P V}

/-- In single-node mode the list of a connection is known from what the connection has read. -/
def Describes (C : CatalogConfig P V) (l : CatalogList P V) : Connection P V → Prop
  | .opened catalogs => l = ensureRuntimeCatalog (registerOverlayCatalogs C.freshList catalogs) ∧
      (C.controlPlane = false → catalogs = C.catalogs)
  | .viewed catalogs views => l = builtList C catalogs views ∧ (C.controlPlane = false → catalogs = C.catalogs)
  | .captured catalogs views boot => l = builtList C catalogs views ∧
      (C.controlPlane = false → catalogs = C.catalogs ∧ boot = C.catalogs)
  | .swapped catalogs views boot org orgCatalogs => l = swappedList C (builtList C catalogs views) boot org orgCatalogs ∧
      (C.controlPlane = false → catalogs = C.catalogs ∧ boot = C.catalogs ∧ orgCatalogs = C.catalogs)
  | .started _ _ _ => True

def Described (C : CatalogConfig P V) (s : ServerState P V) : Prop :=
  C.mode = .singleNode → ∀ id c, s.connections id = some c → Describes C (s.listOf C id) c

theorem cell_singleNode (h : C.mode = .singleNode) (id) : cell C id = some id := by
  simp only [cell, h]

theorem cell_distributed (h : C.mode ≠ .singleNode) (id) : cell C id = none := by
  unfold cell
  split
  next hm => exact absurd hm h
  next => rfl

theorem currentCatalogsForOrg_static (h : C.controlPlane = false) (org) :
    s.currentCatalogsForOrg C org = C.catalogs := by
  simp [currentCatalogsForOrg, h]

theorem described_boot (catalogs) (views) : Described C (boot C catalogs views) := nofun

theorem Described.write (hin : Described C s) {id l c}
    (hn : C.mode = .singleNode → Describes C l c) : Described C (s.write C id l c) := by
  intro hm i d hd
  by_cases hi : i = id
  · subst hi
    have hd : c = d := by simpa [ServerState.write] using hd
    have hl : (s.write C i l c).listOf C i = l := by simp [listOf, ServerState.write]
    rw [hl, ← hd]
    exact hn hm
  · have hd : s.connections i = some d := by simpa [ServerState.write, hi] using hd
    have hl : (s.write C id l c).listOf C i = s.listOf C i := by
      simp [listOf, ServerState.write, cell_singleNode hm, hi]
    rw [hl]
    exact hin hm i d hd

theorem step_described {e} (hi : Described C s) (h : step C s e = some s') : Described C s' := by
  cases e with
  | updateCatalogs registry | updateViews registry =>
    cases h
    exact hi
  | plan id =>
    simp only [step, ite_none_right_eq_some, some.injEq] at h
    exact h.2 ▸ hi
  | close id =>
    simp only [step, ite_none_right_eq_some, some.injEq] at h
    obtain ⟨-, rfl⟩ := h
    intro hm i d hd
    simp only [ite_none_left_eq_some] at hd
    exact hi hm i d hd.2
  | createSession id =>
    simp only [step] at h
    split at h
    next =>
      cases h
      refine hi.write fun hm => ⟨by simp only [baseList, hm], fun hp => ?_⟩
      exact currentCatalogsForOrg_static hp _
    next => cases h
  | registerBootViews id =>
    simp only [step] at h
    split at h
    next catalogs hc =>
      cases h
      refine hi.write fun hm => ?_
      obtain ⟨hl, hs⟩ := hi hm id _ hc
      exact ⟨by rw [hl, builtList], hs⟩
    next => cases h
  | captureBoot id =>
    simp only [step] at h
    split at h
    next catalogs views hc =>
      cases h
      refine hi.write fun hm => ?_
      obtain ⟨hl, hs⟩ := hi hm id _ hc
      exact ⟨hl, fun hp => ⟨hs hp, currentCatalogsForOrg_static hp _⟩⟩
    next => cases h
  | swapCatalogs id org =>
    simp only [step] at h
    split at h
    next catalogs views boot hc =>
      cases h
      refine hi.write fun hm => ?_
      obtain ⟨hl, hs⟩ := hi hm id _ hc
      refine ⟨by rw [hl], fun hp => ?_⟩
      exact ⟨(hs hp).1, (hs hp).2, currentCatalogsForOrg_static hp _⟩
    next => cases h
  | swapViews id =>
    simp only [step] at h
    split at h
    next =>
      cases h
      exact hi.write fun _ => trivial
    next => cases h

/-- A step of a connection leaves the others alone when they have lists of their own, when there are none, or
when it writes what is there. -/
theorem undisturbed_write_iff {id l c} : Undisturbed C s id (s.write C id l c) ↔
      Alone C s id ∨ (C.mode ≠ .singleNode ∧ ∀ path, l.resolve path = (s.lists none).resolve path) := by
  by_cases hm : C.mode = .singleNode
  · refine iff_of_true (fun other hne _ path => ?_) (.inl (.inl hm))
    have hli : (s.write C id l c).listOf C other = s.listOf C other := by
      simp [listOf, ServerState.write, cell_singleNode hm, hne]
    rw [hli]
  · have hn : ∀ other, (s.write C id l c).listOf C other = l := by
      intro other
      simp [listOf, ServerState.write, cell_distributed hm]
    have hol : ∀ other, s.listOf C other = s.lists none := by
      intro other
      rw [listOf, cell_distributed hm]
    simp only [Undisturbed, hn, hol, Alone, hm, false_or, ne_eq, not_false_eq_true, true_and]
    constructor
    · intro h
      by_cases ho : ∃ other, other ≠ id ∧ s.connections other ≠ none
      · obtain ⟨other, hne, hl⟩ := ho
        exact .inr (h other hne hl)
      · exact .inl fun other hne => by_contra fun hl => ho ⟨other, hne, hl⟩
    · rintro (ha | hs) other hne hl
      · exact absurd (ha other hne) hl
      · exact hs

theorem undisturbed_write_same {id c} : Undisturbed C s id (s.write C id (s.listOf C id) c) := by
  refine undisturbed_write_iff.mpr ?_
  by_cases hm : C.mode = .singleNode
  · exact .inl (.inl hm)
  · exact .inr ⟨hm, fun path => by rw [listOf, cell_distributed hm]⟩

theorem alone_or_iff {id p q} (h : C.mode ≠ .singleNode → (p ↔ q)) :
    (Alone C s id ∨ (C.mode ≠ .singleNode ∧ p)) ↔ (Alone C s id ∨ q) := by
  by_cases hm : C.mode = .singleNode
  · exact iff_of_true (.inl (.inl hm)) (.inl (.inl hm))
  · simp only [hm, ne_eq, not_false_eq_true, true_and, h hm]

theorem baseList_distributed (h : C.mode ≠ .singleNode) : s.baseList C = s.lists none := by
  unfold baseList
  split
  next hm => exact absurd hm h
  next => rfl

/-- One step: it isolates sessions exactly when it is clean. -/
theorem isolated_iff_clean {e} (hi : Described C s) (h : step C s e = some s') :
    Isolated C s e s' ↔ Clean C s e s' := by
  cases e with
  | updateCatalogs registry | updateViews registry | plan id | close id => exact Iff.rfl
  | createSession id =>
    simp only [step] at h
    split at h
    next =>
      cases h
      refine undisturbed_write_iff.trans (alone_or_iff fun hm => ?_)
      simp only [resolve_ensureRuntimeCatalog, baseList_distributed hm]
      exact resolve_registerOverlayCatalogs_iff _
    next => cases h
  | registerBootViews id =>
    simp only [step] at h
    split at h
    next catalogs hc =>
      cases h
      refine undisturbed_write_iff.trans (alone_or_iff fun hm => ?_)
      rw [listOf, cell_distributed hm]
      exact resolve_registerOrgViews_iff _
    next => cases h
  | captureBoot id =>
    simp only [step] at h
    split at h
    next catalogs views hc =>
      cases h
      exact iff_of_true undisturbed_write_same trivial
    next => cases h
  | swapCatalogs id org =>
    simp only [step] at h
    split at h
    next catalogs views boot hc =>
      cases h
      simp only [Clean, hc, some.injEq, Connection.captured.injEq]
      by_cases hor : org ≠ C.bootOrg ∧ C.controlPlane
      · rw [swappedList, if_pos hor]
        refine (undisturbed_write_iff.trans (alone_or_iff fun hm => ?_)).trans ⟨?_, fun h => h _ _ _ ⟨rfl, rfl, rfl⟩ hor.1 hor.2⟩
        · rw [listOf, cell_distributed hm]
          exact resolve_shadowCatalogs_iff _ _
        · rintro h _ _ _ ⟨rfl, rfl, rfl⟩ - -
          exact h
      · rw [swappedList, if_neg hor]
        exact iff_of_true undisturbed_write_same fun _ _ _ _ h₁ h₂ => absurd ⟨h₁, h₂⟩ hor
    next => cases h
  | swapViews id =>
    simp only [step] at h
    split at h
    next catalogs views boot org orgCatalogs hc =>
      cases h
      have hco : ∀ l, (s.write C id l (.started org orgCatalogs (s.viewsForOrg org))).connections id =
          some (.started org orgCatalogs (s.viewsForOrg org)) := fun l => by simp [ServerState.write]
      have hl : ∀ l c, (s.write C id l c).listOf C id = l := fun l c => by simp [listOf, ServerState.write]
      simp only [Isolated, Clean, hc, hco, hl, some.injEq, Connection.started.injEq,
        Connection.swapped.injEq]
      by_cases hor : org = C.bootOrg
      · rw [if_pos hor]
        refine iff_of_true ⟨undisturbed_write_same, ?_⟩ ?_
        · rintro _ _ _ ⟨rfl, -⟩ hne
          exact absurd hor hne
        · rintro _ _ _ _ _ ⟨-, -, -, rfl, -⟩ hne
          exact absurd hor hne
      · rw [if_neg hor]
        -- the others on one side, the session itself on the other
        have ho : Undisturbed C s id (s.write C id (Dataglot.swapViews C (s.listOf C id) (s.viewsForOrg C.bootOrg)
            (s.viewsForOrg org)) (.started org orgCatalogs (s.viewsForOrg org))) ↔
            Alone C s id ∨ ∀ path, (s.lists none).hasSchema path →
              (if ((s.viewsForOrg C.bootOrg).at C path).isSome then none else (s.lists none).viewAt path).or
                ((s.viewsForOrg org).at C path) = (s.lists none).viewAt path := by
          refine undisturbed_write_iff.trans (alone_or_iff fun hm => ?_)
          rw [listOf, cell_distributed hm]
          exact resolve_swapViews_iff _ _
        have hse : (∀ path, (Dataglot.swapViews C (s.listOf C id) (s.viewsForOrg C.bootOrg)
            (s.viewsForOrg org)).resolve path = ofOrg C orgCatalogs (s.viewsForOrg org) path) ↔ match C.mode with
            | .singleNode => CleanReads C catalogs views boot orgCatalogs (s.viewsForOrg C.bootOrg) (s.viewsForOrg org)
            | .distributed => CleanList C (s.lists none) orgCatalogs (s.viewsForOrg C.bootOrg) (s.viewsForOrg org) := by
          rw [resolve_swapViews_eq_ofOrg_iff]
          cases hm : C.mode with
          | singleNode =>
            obtain ⟨hd, hs⟩ := hi hm id _ hc
            rw [hd]
            exact cleanList_swappedList_iff hor hs
          | distributed =>
            have hne : C.mode ≠ .singleNode := by
              rw [hm]
              nofun
            rw [listOf, cell_distributed hne]
        constructor
        · rintro ⟨hu, hr⟩ _ _ _ _ _ ⟨rfl, rfl, rfl, rfl, rfl⟩ hne
          exact ⟨ho.mp hu, hse.mp (hr _ _ _ ⟨rfl, rfl, rfl⟩ hne)⟩
        · intro hcl
          obtain ⟨hu, hr⟩ := hcl _ _ _ _ _ ⟨rfl, rfl, rfl, rfl, rfl⟩ hor
          refine ⟨ho.mpr hu, ?_⟩
          rintro _ _ _ ⟨rfl, rfl, rfl⟩ -
          exact hse.mpr hr
    next => cases h

/-- **Sessions are isolated exactly along clean runs**: for every interleaving of connections, updates of the
registries and planning, in either mode, every started session of another org than the boot org resolves what it
was given and no connection changes a name for another one, if and only if every step is clean. -/
theorem sessions_isolated_iff (C : CatalogConfig P V) (catalogs : HashMap (CatalogSnapshot P))
    (views : HashMap (OrgViews V)) (run : List (SessionEvent P V)) :
    Runs.Along (step C) (Isolated C) (boot C catalogs views) run ↔
      Runs.Along (step C) (Clean C) (boot C catalogs views) run :=
  Runs.along_congr (Described C) (fun _ _ _ hinv h _ => step_described hinv h)
    (fun _ _ _ hinv h => isolated_iff_clean hinv h) run (described_boot catalogs views)

/-- The boot org has a catalog `pg`, the org `acme` has none. In single-node mode `pg` is dropped after the session
of a connection was built and before the observer's snapshot is read: the session of `acme` goes on to resolve
`pg`. In distributed mode the startup of a connection of `acme` takes `pg` from a live session of the boot org. -/
theorem startup_breaks_isolation :
    let config (mode : ExecutionMode) : CatalogConfig String String :=
      { mode := mode, bootOrg := "main", defaultCatalog := "dataglot", defaultSchema := "public", controlPlane := true,
        catalogs := ∅, localSchemas := AList.singleton "dataglot" ["public"], hasTable := fun _ _ _ => false,
        template := fun _ => none }
    let catalogs : HashMap (CatalogSnapshot String) := AList.singleton "main" (AList.singleton "pg" "postgres")
    let connect (id : Nat) : List (SessionEvent String String) := [.createSession id, .registerBootViews id]
    let startup (id : Nat) (org : String) : List (SessionEvent String String) :=
      [.captureBoot id, .swapCatalogs id org, .swapViews id]
    (¬ Runs.Along (step (config .singleNode)) (Isolated (config .singleNode)) (boot (config .singleNode) catalogs ∅)
        (connect 0 ++ [.updateCatalogs ∅] ++ startup 0 "acme")) ∧
      ¬ Runs.Along (step (config .distributed)) (Isolated (config .distributed)) (boot (config .distributed) catalogs ∅)
        (connect 0 ++ startup 0 "main" ++ connect 1 ++ startup 1 "acme") := by
  intro config catalogs connect startup
  refine ⟨fun h => ?_, fun h => ?_⟩
  · iterate 5 replace h := (h _ rfl).2
    obtain ⟨⟨-, hs⟩, -⟩ := h _ rfl
    have hpg := hs "acme" _ _ rfl (by decide) ⟨"pg", "public", "users"⟩
    cases hpg
  · iterate 5 replace h := (h _ rfl).2
    obtain ⟨-, h⟩ := h _ rfl
    obtain ⟨-, h⟩ := h _ rfl
    obtain ⟨-, h⟩ := h _ rfl
    obtain ⟨ho, -⟩ := h _ rfl
    have hpg := ho 0 (by decide) nofun ⟨"pg", "public", "users"⟩
    cases hpg

end ServerState

end Dataglot
