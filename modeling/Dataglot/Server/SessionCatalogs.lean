/-
The catalogs and views that a session can name (`server.rs`, `cluster.rs`).

A session is built before its org is known, with the boot org's catalogs and
views; once the org is known, the startup observer puts the org's in their place.
In single-node mode each session has a catalog list of its own. In distributed mode
the sessions are built from one template, and share the template's list.

A source and a view are what providers stand for; the tables of a source and those
of the `pg_catalog` overlay around it are not looked into.
-/
import Dataglot.Server.Identity

namespace Dataglot
open DataFusion List

/-! ## Catalog lists -/

/-- A table by its full name. -/
structure TablePath where
  catalog : String
  schema : String
  table : String
  deriving DecidableEq, Repr

/-- What a catalog name stands for: a source under its overlay, or a catalog in memory, by its schemas and
their tables. -/
inductive Catalog (P V : Type)
  | source (provider : P)
  | memory (schemas : String → Option (String → Option V))

abbrev CatalogList (P V : Type) := String → Option (Catalog P V)

abbrev CatalogSnapshot (P : Type) := HashMap P

/-- `RegisteredView`: where a view is to be registered, and the view. -/
structure RegisteredView (V : Type) where
  reference : TableReference
  provider : V

/-- The views of an org by their names. A view's reference ends in its name (`view_reference`). -/
structure OrgViews (V : Type) where
  views : HashMap (RegisteredView V)
  named : ∀ e ∈ views.entries, e.2.reference.table = e.1

inductive CatalogError
  | unknownCatalog
  | unknownSchema
  | alreadyExists
  /-- the provider does not take tables -/
  | unsupported
  deriving DecidableEq, Repr

/-- What a table name leads to: the provider of a source, which knows its tables, or a view. -/
inductive Resolved (P V : Type)
  | source (provider : P)
  | view (provider : V)

namespace CatalogList

variable {P V : Type} (l : CatalogList P V)

def registerCatalog (name : String) (catalog : Catalog P V) : CatalogList P V :=
  fun n => if n = name then some catalog else l n

/-- The table's place in a schema in memory holds `entry`. -/
def setTable (path : TablePath) (entry : Option V) : CatalogList P V := fun n =>
  match l n with
  | some (.memory schemas) =>
    if n = path.catalog then
      some (.memory fun s =>
        if s = path.schema then (schemas s).map fun tables t => if t = path.table then entry else tables t
        else schemas s)
    else some (.memory schemas)
  | other => other

def registerTable (path : TablePath) (view : V) : Except CatalogError (CatalogList P V) :=
  match l path.catalog with
  | none => .error .unknownCatalog
  | some (.source _) => .error .unsupported
  | some (.memory schemas) =>
    match schemas path.schema with
    | none => .error .unknownSchema
    | some tables => if (tables path.table).isSome then .error .alreadyExists else .ok (l.setTable path (some view))

def deregisterTable (path : TablePath) : Except CatalogError (CatalogList P V) :=
  match l path.catalog with
  | none => .error .unknownCatalog
  | some (.source _) => .error .unsupported
  | some (.memory schemas) =>
    match schemas path.schema with
    | none => .error .unknownSchema
    | some _ => .ok (l.setTable path none)

/-- `SessionContext::table_exist`, false where it fails; `hasTable` asks a source. -/
def tableExist (hasTable : P → String → String → Bool) (l : CatalogList P V) (path : TablePath) : Bool :=
  match l path.catalog with
  | none => false
  | some (.source provider) => hasTable provider path.schema path.table
  | some (.memory schemas) => ((schemas path.schema).bind (· path.table)).isSome

/-! ### What a list says of a name -/

def sourceAt (name : String) : Option P :=
  match l name with
  | some (.source provider) => some provider
  | _ => none

/-- The schema is one in memory. -/
def hasSchema (path : TablePath) : Bool :=
  match l path.catalog with
  | some (.memory schemas) => (schemas path.schema).isSome
  | _ => false

def viewAt (path : TablePath) : Option V :=
  match l path.catalog with
  | some (.memory schemas) => (schemas path.schema).bind (· path.table)
  | _ => none

/-- What a session with this list resolves a table name to. -/
def resolve (path : TablePath) : Option (Resolved P V) :=
  match l.sourceAt path.catalog with
  | some provider => some (.source provider)
  | none => (l.viewAt path).map .view

variable {l : CatalogList P V} {path : TablePath}

theorem viewAt_of_sourceAt {p} (h : l.sourceAt path.catalog = some p) : l.viewAt path = none := by
  unfold sourceAt at h
  unfold viewAt
  split at h
  next hl => simp only [hl]
  next => cases h

theorem viewAt_of_hasSchema (h : l.hasSchema path = false) : l.viewAt path = none := by
  unfold hasSchema at h
  unfold viewAt
  split
  next schemas hl =>
    simp only [hl, Option.isSome_eq_false_iff, Option.isNone_iff_eq_none] at h
    rw [h, Option.bind_none]
  next => rfl

theorem hasSchema_of_sourceAt {p} (h : l.sourceAt path.catalog = some p) : l.hasSchema path = false := by
  unfold sourceAt at h
  unfold hasSchema
  split at h
  next hl => simp only [hl]
  next => cases h

section SetTable

variable (l : CatalogList P V) (path : TablePath) (entry : Option V)

@[simp] theorem sourceAt_setTable (n) : (l.setTable path entry).sourceAt n = l.sourceAt n := by
  unfold sourceAt setTable
  rcases l n with _ | p | schemas
  · rfl
  · rfl
  · by_cases hn : n = path.catalog <;> simp [hn]

@[simp] theorem hasSchema_setTable (q) : (l.setTable path entry).hasSchema q = l.hasSchema q := by
  unfold hasSchema setTable
  rcases l q.catalog with _ | p | schemas
  · rfl
  · rfl
  · by_cases hn : q.catalog = path.catalog
    · by_cases hs : q.schema = path.schema <;> simp [hn, hs]
    · simp [hn]

theorem viewAt_setTable (q) : (l.setTable path entry).viewAt q =
    if q = path ∧ l.hasSchema path then entry else l.viewAt q := by
  unfold viewAt hasSchema setTable
  by_cases hq : q = path
  · subst hq
    rcases l q.catalog with _ | p | schemas
    · simp
    · simp
    · cases hs : schemas q.schema <;> simp [hs]
  · rcases l q.catalog with _ | p | schemas
    · simp [hq]
    · simp [hq]
    · by_cases hn : q.catalog = path.catalog
      · by_cases hs : q.schema = path.schema
        · have ht : q.table ≠ path.table := by
            intro ht
            cases q
            cases path
            simp_all
          cases hsc : schemas path.schema <;> simp [hq, hn, hs, ht, hsc]
        · simp [hq, hn, hs]
      · simp [hq, hn]

end SetTable

/-! ### One table -/

/-- The list after a call whose failure is only logged. -/
def orKeep (result : Except CatalogError (CatalogList P V)) : CatalogList P V :=
  match result with
  | .ok l' => l'
  | .error _ => l

section OneTable

variable (l : CatalogList P V) (path : TablePath) (view : V)

theorem orKeep_registerTable : l.orKeep (l.registerTable path view) =
    if l.hasSchema path ∧ l.viewAt path = none then l.setTable path (some view) else l := by
  unfold registerTable hasSchema viewAt
  rcases l path.catalog with _ | p | schemas
  · simp [orKeep]
  · simp [orKeep]
  · cases hs : schemas path.schema with
    | none => simp [orKeep, hs]
    | some tables => cases ht : tables path.table <;> simp [orKeep, hs, ht]

theorem orKeep_deregisterTable :
    l.orKeep (l.deregisterTable path) = if l.hasSchema path then l.setTable path none else l := by
  unfold deregisterTable hasSchema
  rcases l path.catalog with _ | p | schemas
  · simp [orKeep]
  · simp [orKeep]
  · cases hs : schemas path.schema <;> simp [orKeep, hs]

theorem viewAt_registerTable (q) : (l.orKeep (l.registerTable path view)).viewAt q =
    if l.hasSchema q then (l.viewAt q).or (if path = q then some view else none) else none := by
  rw [orKeep_registerTable]
  cases hs : l.hasSchema q with
  | false =>
    have hn := viewAt_of_hasSchema hs
    split
    next hf =>
      have hq : q ≠ path := by
        rintro rfl
        exact Bool.false_ne_true (hs.symm.trans hf.1)
      simp [viewAt_setTable, hq, hn]
    next => simp [hn]
  | true =>
    by_cases hq : path = q
    · subst hq
      cases hv : l.viewAt path <;> simp [viewAt_setTable, hs, hv]
    · split <;> simp [viewAt_setTable, Ne.symm hq]

theorem viewAt_deregisterTable (q) :
    (l.orKeep (l.deregisterTable path)).viewAt q = if path = q then none else l.viewAt q := by
  rw [orKeep_deregisterTable]
  by_cases hq : path = q
  · subst hq
    cases hs : l.hasSchema path with
    | true => simp [viewAt_setTable, hs]
    | false => simp [viewAt_of_hasSchema hs]
  · split <;> simp [viewAt_setTable, Ne.symm hq]

end OneTable

theorem orKeep_registerTable_of_tableExist {hasTable} (h : l.tableExist hasTable path)
    (view) : l.orKeep (l.registerTable path view) = l := by
  rw [orKeep_registerTable, if_neg]
  rintro ⟨hs, hv⟩
  unfold tableExist at h
  unfold hasSchema at hs
  unfold viewAt at hv
  split at h
  next => cases h
  next hl => simp [hl] at hs
  next schemas hl =>
    simp only [hl] at hv
    rw [hv] at h
    cases h

end CatalogList

/-! ## Building a session -/

inductive ExecutionMode
  | singleNode
  | distributed
  deriving DecidableEq, Repr

/-- What the server is started with, as far as sessions are built from it. -/
structure CatalogConfig (P V : Type) where
  mode : ExecutionMode
  bootOrg : String
  defaultCatalog : String
  defaultSchema : String
  /-- whether there is a live registry of catalogs -/
  controlPlane : Bool
  /-- the catalogs of a server without one -/
  catalogs : CatalogSnapshot P
  /-- the catalogs in memory that a fresh context has, with their schemas -/
  localSchemas : HashMap (List String)
  hasTable : P → String → String → Bool
  /-- the catalog list of the distributed template after boot -/
  template : CatalogList P V

namespace CatalogConfig

variable {P V : Type} (C : CatalogConfig P V)

def pathOf (reference : TableReference) : TablePath :=
  let (catalog, schema, table) := reference.resolve C.defaultCatalog C.defaultSchema
  ⟨catalog, schema, table⟩

/-- The catalog list of a fresh context (`SessionContextFactory::create_context`). -/
def freshList : CatalogList P V := fun n =>
  (C.localSchemas.lookup n).map fun schemas => .memory fun s => if s ∈ schemas then some fun _ => none else none

end CatalogConfig

def runtimeCatalog : String := "dataglot"

def runtimeSchema : String := "public"

section Build

variable {P V : Type}

def registerOverlayCatalogs (l : CatalogList P V) (catalogs : CatalogSnapshot P) : CatalogList P V :=
  catalogs.entries.foldl (fun l e => l.registerCatalog e.1 (.source e.2)) l

def ensureRuntimeCatalog (l : CatalogList P V) : CatalogList P V :=
  if (l runtimeCatalog).isSome then l
  else l.registerCatalog runtimeCatalog (.memory fun s => if s = runtimeSchema then some fun _ => none else none)

variable (C : CatalogConfig P V)

/-- The loop of `register_org_views`. -/
def registerOrgViews (l : CatalogList P V) (views : OrgViews V) : CatalogList P V :=
  views.views.entries.foldl (fun l e =>
    let path := C.pathOf e.2.reference
    if l.tableExist C.hasTable path then l else l.orKeep (l.registerTable path e.2.provider)) l

/-- The observer's loop over the boot snapshot: a catalog that the org does not have is shadowed by an empty
one. -/
def shadowCatalogs (l : CatalogList P V) (boot org : CatalogSnapshot P) : CatalogList P V :=
  boot.keys.foldl (fun l n => if n ∈ org then l else l.registerCatalog n (.memory fun _ => none)) l

/-- The observer's loops over views: the boot org's are taken out, the org's are registered. -/
def swapViews (l : CatalogList P V) (boot org : OrgViews V) : CatalogList P V :=
  let l := boot.views.entries.foldl (fun l e => l.orKeep (l.deregisterTable (C.pathOf e.2.reference))) l
  org.views.entries.foldl (fun l e => l.orKeep (l.registerTable (C.pathOf e.2.reference) e.2.provider)) l

end Build

/-! ## What the loops do to a name -/

section Loops

variable {P V : Type} {C : CatalogConfig P V}

def viewIn (C : CatalogConfig P V) (es : List (Sigma fun _ : String => RegisteredView V)) (path : TablePath) : Option V :=
  (es.dlookup path.table).bind fun v => if C.pathOf v.reference = path then some v.provider else none

/-- The view of an org that goes by a full name. -/
def OrgViews.at (C : CatalogConfig P V) (views : OrgViews V) (path : TablePath) : Option V :=
  viewIn C views.views.entries path

theorem table_pathOf (r) : (C.pathOf r).table = r.table := by
  cases r <;> rfl

theorem viewIn_cons {e es} (hn : (e :: es).NodupKeys) (hna : e.2.reference.table = e.1) (path) :
    viewIn C (e :: es) path = if C.pathOf e.2.reference = path then some e.2.provider else viewIn C es path := by
  have hf : es.dlookup e.1 = none := dlookup_eq_none.mpr (nodupKeys_cons.mp hn).1
  unfold viewIn
  by_cases ht : path.table = e.1
  · rw [ht, dlookup_cons_eq, hf]
    simp
  · have hne : C.pathOf e.2.reference ≠ path := by
      intro heq
      rw [← heq, table_pathOf, hna] at ht
      exact ht rfl
    rw [dlookup_cons_ne _ _ ht, if_neg hne]

theorem registerOverlayCatalogs_apply (l : CatalogList P V) (catalogs n) :
    registerOverlayCatalogs l catalogs n = match catalogs.lookup n with
      | some p => some (.source p)
      | none => l n := by
  have key : ∀ (es : List (Sigma fun _ : String => P)) (l : CatalogList P V), es.NodupKeys →
      es.foldl (fun l e => l.registerCatalog e.1 (.source e.2)) l n = match es.dlookup n with
        | some p => some (.source p)
        | none => l n := by
    intro es
    induction es with
    | nil => exact fun _ _ => rfl
    | cons e es ih =>
      intro l hno
      rw [foldl_cons, ih _ (nodupKeys_cons.mp hno).2]
      by_cases hn : n = e.1
      · have hf : es.dlookup n = none := by
          rw [hn]
          exact dlookup_eq_none.mpr (nodupKeys_cons.mp hno).1
        rw [hf, hn, dlookup_cons_eq]
        simp [CatalogList.registerCatalog]
      · rw [dlookup_cons_ne _ _ hn]
        cases es.dlookup n <;> simp [CatalogList.registerCatalog, hn]
  exact key catalogs.entries l catalogs.nodupKeys

theorem shadowCatalogs_apply (l : CatalogList P V) (boot org n) :
    shadowCatalogs l boot org n = if n ∈ boot ∧ n ∉ org then some (.memory fun _ => none) else l n := by
  have key : ∀ (ns : List String) (l : CatalogList P V),
      ns.foldl (fun l m => if m ∈ org then l else l.registerCatalog m (.memory fun _ => none)) l n =
        if n ∈ ns ∧ n ∉ org then some (.memory fun _ => none) else l n := by
    intro ns
    induction ns with
    | nil => simp
    | cons m ns ih =>
      intro l
      rw [foldl_cons, ih]
      by_cases hm : n = m
      · subst hm
        by_cases ho : n ∈ org
        · simp [ho]
        · simp [ho, CatalogList.registerCatalog]
      · by_cases ho : m ∈ org
        · simp [ho, hm]
        · simp [ho, hm, CatalogList.registerCatalog]
  rw [shadowCatalogs, key boot.keys l]
  simp only [AList.mem_keys]

section ViewLoops

variable {views : List (Sigma fun _ : String => RegisteredView V)}

theorem foldl_keeps {α β γ : Type} {f} (g : α → γ) (h : ∀ a b, g (f a b) = g a) (bs : List β) (a : α) :
    g (bs.foldl f a) = g a := by
  induction bs generalizing a with
  | nil => rfl
  | cons b bs ih => rw [foldl_cons, ih, h]

theorem register_loop (hn : views.NodupKeys) (hna : ∀ e ∈ views, e.2.reference.table = e.1)
    (l : CatalogList P V) :
    let l' := views.foldl (fun l e => l.orKeep (l.registerTable (C.pathOf e.2.reference) e.2.provider)) l
    (∀ n, l'.sourceAt n = l.sourceAt n) ∧ (∀ path, l'.hasSchema path = l.hasSchema path) ∧
      ∀ path, l'.viewAt path = if l.hasSchema path then (l.viewAt path).or (viewIn C views path) else none := by
  have hsc : ∀ path view q (l : CatalogList P V), (l.orKeep (l.registerTable path view)).hasSchema q = l.hasSchema q := by
    intro path view q l
    rw [CatalogList.orKeep_registerTable]
    split <;> simp
  refine ⟨fun n => foldl_keeps (CatalogList.sourceAt · n) (fun l e => ?_) _ _,
    fun path => foldl_keeps (CatalogList.hasSchema · path) (fun l e => hsc _ _ _ l) _ _, fun path => ?_⟩
  · rw [CatalogList.orKeep_registerTable]
    split <;> simp
  induction views generalizing l with
  | nil =>
    cases hs : l.hasSchema path with
    | true => simp [viewIn]
    | false => simpa using CatalogList.viewAt_of_hasSchema hs
  | cons e es ih =>
    rw [foldl_cons, ih (nodupKeys_cons.mp hn).2 (fun e' he' => hna e' (by simp [he'])), hsc,
      CatalogList.viewAt_registerTable, viewIn_cons hn (hna e (by simp))]
    cases l.hasSchema path with
    | false => rfl
    | true => by_cases hp : C.pathOf e.2.reference = path <;> cases l.viewAt path <;> simp [hp]

theorem deregister_loop (hn : views.NodupKeys) (hna : ∀ e ∈ views, e.2.reference.table = e.1)
    (l : CatalogList P V) : let l' := views.foldl (fun l e => l.orKeep (l.deregisterTable (C.pathOf e.2.reference))) l
    (∀ n, l'.sourceAt n = l.sourceAt n) ∧ (∀ path, l'.hasSchema path = l.hasSchema path) ∧
      ∀ path, l'.viewAt path = if (viewIn C views path).isSome then none else l.viewAt path := by
  refine ⟨fun n => foldl_keeps (CatalogList.sourceAt · n) (fun l e => ?_) _ _,
    fun path => foldl_keeps (CatalogList.hasSchema · path) (fun l e => ?_) _ _, fun path => ?_⟩
  · rw [CatalogList.orKeep_deregisterTable]
    split <;> simp
  · rw [CatalogList.orKeep_deregisterTable]
    split <;> simp
  induction views generalizing l with
  | nil => simp [viewIn]
  | cons e es ih =>
    rw [foldl_cons, ih (nodupKeys_cons.mp hn).2 (fun e' he' => hna e' (by simp [he'])),
      CatalogList.viewAt_deregisterTable, viewIn_cons hn (hna e (by simp))]
    by_cases hp : C.pathOf e.2.reference = path <;> simp [hp]

end ViewLoops

def OrgViews.empty : OrgViews V := ⟨∅, nofun⟩

/-- `register_org_views` registers as the observer does, who has nothing to take out: the test whether a table exists
changes nothing. -/
theorem registerOrgViews_eq (l views) :
    registerOrgViews C l views = swapViews C l .empty views := by
  unfold registerOrgViews
  refine congrArg (fun f => foldl f l views.views.entries) ?_
  funext l e
  cases he : l.tableExist C.hasTable (C.pathOf e.2.reference) with
  | false => simp [he]
  | true => simp [he, CatalogList.orKeep_registerTable_of_tableExist he]

section Results

variable (l : CatalogList P V) (boot org : OrgViews V) (path : TablePath)

theorem sourceAt_swapViews (n : String) : (swapViews C l boot org).sourceAt n = l.sourceAt n := by
  unfold swapViews
  rw [(register_loop org.views.nodupKeys org.named _).1, (deregister_loop boot.views.nodupKeys boot.named l).1]

theorem hasSchema_swapViews : (swapViews C l boot org).hasSchema path = l.hasSchema path := by
  unfold swapViews
  rw [(register_loop org.views.nodupKeys org.named _).2.1, (deregister_loop boot.views.nodupKeys boot.named l).2.1]

/-- Taking out the boot org's views and registering the org's: a place in a schema keeps a view that is not one
of the boot org's, and is the org's otherwise. -/
theorem viewAt_swapViews : (swapViews C l boot org).viewAt path =
    if l.hasSchema path then (if (boot.at C path).isSome then none else l.viewAt path).or
    (org.at C path) else none := by
  unfold swapViews
  rw [(register_loop org.views.nodupKeys org.named _).2.2, (deregister_loop boot.views.nodupKeys boot.named l).2.1,
    (deregister_loop boot.views.nodupKeys boot.named l).2.2]
  rfl

end Results

end Loops

end Dataglot
