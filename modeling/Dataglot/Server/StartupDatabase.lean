/-
The `database` parameter of a startup message. The observer accepts it when the session's catalog list
knows the name. By then the list holds the catalogs of the connection's org, the catalogs in memory that
every session has, and an empty catalog for each catalog of the boot org that the org lacks. So the answer
tells a connection of another org whether the boot org has a catalog of that name.
-/
import Dataglot.Server.SessionIsolation
import Dataglot.Server.Startup

namespace Dataglot
open CatalogList Option

variable {P V : Type}

def unknownDatabase (db : String) : StartupRejection := ⟨"3D000", s!"database \"{db}\" does not exist"⟩

/-- The list that sessions are built from before there is a connection. -/
def CatalogConfig.engineList (C : CatalogConfig P V) : CatalogList P V :=
  match C.mode with
  | .singleNode => C.freshList
  | .distributed => C.template

/-- The name of a catalog that every session has. -/
def CatalogConfig.EngineLocal (C : CatalogConfig P V) (name : String) : Prop :=
  name = runtimeCatalog ∨ (C.engineList name).isSome

namespace ServerState

/-- The end of the observer: the default catalog that the connection asked for, none if it keeps the server's. -/
def checkDatabase (C : CatalogConfig P V) (s : ServerState P V) (id : Nat) (database : Option String) :
    Except StartupRejection (Option String) :=
  match connectionDefaultCatalog database fun c => (s.listOf C id c).isSome with
  | .apply db => .ok (some db)
  | .unknownCatalog db => .error (unknownDatabase db)
  | .keep => .ok none

/-- What a connection of an org does up to the check. -/
def startupEvents (id : Nat) (org : String) : List (SessionEvent P V) :=
  [.createSession id, .registerBootViews id, .captureBoot id, .swapCatalogs id org, .swapViews id]

/-- A connection of an org, from the first step to the observer's answer. -/
def connect (C : CatalogConfig P V) (s : ServerState P V) (id : Nat) (org : String) (database : Option String) :
    Option (Except StartupRejection (Option String)) :=
  (Runs.run (step C) s (startupEvents id org)).map fun s' => s'.checkDatabase C id database

end ServerState

/-! ## The names a list knows -/

section Known

variable {C : CatalogConfig P V} {l : CatalogList P V} {n : String}

theorem isSome_registerOverlayCatalogs {catalogs} :
    (registerOverlayCatalogs l catalogs n).isSome ↔ n ∈ catalogs ∨ (l n).isSome := by
  rw [registerOverlayCatalogs_apply, ← AList.lookup_isSome]
  cases catalogs.lookup n <;> simp

theorem isSome_ensureRuntimeCatalog : (ensureRuntimeCatalog l n).isSome ↔ n = runtimeCatalog ∨ (l n).isSome := by
  unfold ensureRuntimeCatalog
  by_cases hn : n = runtimeCatalog
  · subst hn
    split_ifs with h
    · simp [h]
    · simp [registerCatalog]
  · split_ifs with h
    · simp [hn]
    · simp [registerCatalog, hn]

theorem isSome_shadowCatalogs {boot org} :
    (shadowCatalogs l boot org n).isSome ↔ (n ∈ boot ∧ n ∉ org) ∨ (l n).isSome := by
  rw [shadowCatalogs_apply]
  split_ifs with h
  · simp [h]
  · simp [h]

theorem isSome_setTable (path entry) : (l.setTable path entry n).isSome = (l n).isSome := by
  unfold setTable
  cases l n with
  | none => rfl
  | some catalog =>
    cases catalog with
    | source p => rfl
    | memory schemas => by_cases hn : n = path.catalog <;> simp [hn]

theorem isSome_foldl_views {f} (hf : ∀ l e, f l e = l ∨ ∃ path entry, f l e = l.setTable path entry) :
    ∀ (es : List (Sigma fun _ : String => RegisteredView V)) (l : CatalogList P V),
      (es.foldl f l n).isSome = (l n).isSome
  | [], _ => rfl
  | e :: es, l => by
    rw [List.foldl_cons, isSome_foldl_views hf es]
    rcases hf l e with heq | ⟨path, entry, heq⟩
    · rw [heq]
    · rw [heq, isSome_setTable]

theorem orKeep_registerTable_cases (path view) : l.orKeep (l.registerTable path view) = l ∨
      ∃ path' entry, l.orKeep (l.registerTable path view) = l.setTable path' entry := by
  rw [orKeep_registerTable]
  split_ifs
  · exact .inr ⟨path, some view, rfl⟩
  · exact .inl rfl

theorem isSome_registerOrgViews (views) : (registerOrgViews C l views n).isSome = (l n).isSome := by
  rw [registerOrgViews_eq]
  exact isSome_foldl_views (fun _ _ => orKeep_registerTable_cases _ _) _ _

theorem isSome_swapViews (boot org) : (swapViews C l boot org n).isSome = (l n).isSome := by
  unfold swapViews
  rw [isSome_foldl_views fun _ _ => orKeep_registerTable_cases _ _, isSome_foldl_views fun l e => ?_]
  rw [orKeep_deregisterTable]
  split_ifs
  · exact .inr ⟨_, none, rfl⟩
  · exact .inl rfl

end Known

/-! ## The answer -/

namespace ServerState

variable {C : CatalogConfig P V} {s : ServerState P V} {id : Nat} {org : String}

section Write

variable (l : CatalogList P V) (c : Connection P V)

@[simp] theorem connections_write : (s.write C id l c).connections id = some c := by
  simp [write]

@[simp] theorem listOf_write : (s.write C id l c).listOf C id = l := by
  simp [listOf, write]

@[simp] theorem currentCatalogsForOrg_write :
    (s.write C id l c).currentCatalogsForOrg C org = s.currentCatalogsForOrg C org := rfl

@[simp] theorem viewsForOrg_write : (s.write C id l c).viewsForOrg org = s.viewsForOrg org := rfl

end Write

theorem isSome_swappedList {l n boot catalogs}
    (ho : org ≠ C.bootOrg) (hs : C.controlPlane = false → catalogs = boot) (hb : n ∈ boot → (l n).isSome) :
    (swappedList C l boot org catalogs n).isSome ↔ n ∈ catalogs ∨ (l n).isSome := by
  unfold swappedList
  cases hp : C.controlPlane with
  | false =>
    rw [hs hp]
    simpa using hb
  | true =>
    simp only [ho, ne_eq, not_false_eq_true, and_self, if_true]
    rw [isSome_shadowCatalogs, isSome_registerOverlayCatalogs]
    exact ⟨fun h => h.elim (fun h => .inr (hb h.1)) fun h => h, .inr⟩

theorem run_startupEvents (hn : s.connections id = none) (ho : org ≠ C.bootOrg) :
    ∃ s', Runs.run (step C) s (startupEvents id org) = some s' ∧
      let given := s.currentCatalogsForOrg C C.bootOrg
      let built := registerOrgViews C (ensureRuntimeCatalog (registerOverlayCatalogs (s.baseList C) given))
        (s.viewsForOrg C.bootOrg)
      s'.listOf C id = Dataglot.swapViews C (swappedList C built given org (s.currentCatalogsForOrg C org))
        (s.viewsForOrg C.bootOrg) (s.viewsForOrg org) := by
  simp only [startupEvents, Runs.run, step, hn, connections_write, bind_some, currentCatalogsForOrg_write,
    viewsForOrg_write, listOf_write, if_neg ho, some.injEq, exists_eq_left']

/-- The session of a connection of the org will know the name. -/
def Known (C : CatalogConfig P V) (s : ServerState P V) (org name : String) : Prop :=
  name ∈ s.currentCatalogsForOrg C org ∨ name ∈ s.currentCatalogsForOrg C C.bootOrg ∨ name = runtimeCatalog ∨
    (s.baseList C name).isSome

theorem known_at_check (hn : s.connections id = none) (ho : org ≠ C.bootOrg) :
    ∃ s', Runs.run (step C) s (startupEvents id org) = some s' ∧
      ∀ n, (s'.listOf C id n).isSome ↔ Known C s org n := by
  obtain ⟨s', hr, hl⟩ := run_startupEvents hn ho
  refine ⟨s', hr, fun n => ?_⟩
  have hb : (registerOrgViews C (ensureRuntimeCatalog
        (registerOverlayCatalogs (s.baseList C) (s.currentCatalogsForOrg C C.bootOrg)))
        (s.viewsForOrg C.bootOrg) n).isSome ↔
      n ∈ s.currentCatalogsForOrg C C.bootOrg ∨ n = runtimeCatalog ∨ (s.baseList C n).isSome := by
    rw [isSome_registerOrgViews, isSome_ensureRuntimeCatalog, isSome_registerOverlayCatalogs]
    exact or_left_comm
  have hs : C.controlPlane = false → s.currentCatalogsForOrg C org = s.currentCatalogsForOrg C C.bootOrg := by
    intro hp
    rw [currentCatalogsForOrg_static hp, currentCatalogsForOrg_static hp]
  rw [hl, isSome_swapViews, isSome_swappedList ho hs fun h => hb.mpr (.inl h), hb, Known]

theorem connect_none (hn : s.connections id = none) (ho : org ≠ C.bootOrg) :
    s.connect C id org none = some (.ok none) := by
  obtain ⟨s', hr, -⟩ := known_at_check hn ho
  rw [connect, hr]
  rfl

theorem connect_of_known (hn : s.connections id = none) (ho : org ≠ C.bootOrg) {db}
    (hdb : Known C s org db) : s.connect C id org (some db) = some (.ok (some db)) := by
  obtain ⟨s', hr, hk⟩ := known_at_check hn ho
  rw [connect, hr, map_some, checkDatabase, connectionDefaultCatalog, (hk db).mpr hdb]
  rfl

theorem connect_of_not_known (hne : s.connections id = none) (ho : org ≠ C.bootOrg) {db}
    (hdb : ¬ Known C s org db) : s.connect C id org (some db) = some (.error (unknownDatabase db)) := by
  obtain ⟨s', hr, hk⟩ := known_at_check hne ho
  have hn : (s'.listOf C id db).isSome = false := Bool.eq_false_iff.mpr fun h => hdb ((hk db).mp h)
  rw [connect, hr, map_some, checkDatabase, connectionDefaultCatalog, hn]
  rfl

/-! ### Along a run -/

theorem isSome_swappedList_of_isSome {l n boot catalogs}
    (h : (l n).isSome) : (swappedList C l boot org catalogs n).isSome := by
  unfold swappedList
  split_ifs
  · exact isSome_shadowCatalogs.mpr (.inr (isSome_registerOverlayCatalogs.mpr (.inr h)))
  · exact h

theorem isSome_lists_step {s' e n} (hstep : step C s e = some s')
    (h : (s.lists none n).isSome) : (s'.lists none n).isSome := by
  -- a connection that writes the shared list has read it
  have hw : ∀ {id l c}, (cell C id = none → (l n).isSome) → ((s.write C id l c).lists none n).isSome := by
    intro id l c hl
    simp only [write]
    split_ifs with hc
    · exact hl hc.symm
    · exact h
  have hli : ∀ {id}, cell C id = none → (s.listOf C id n).isSome := by
    intro id hc
    rw [listOf, hc]
    exact h
  cases e with
  | updateCatalogs registry | updateViews registry =>
    cases hstep
    exact h
  | plan id =>
    simp only [step, ite_none_right_eq_some, some.injEq] at hstep
    exact hstep.2 ▸ h
  | close id =>
    simp only [step, ite_none_right_eq_some, some.injEq] at hstep
    obtain ⟨-, rfl⟩ := hstep
    exact h
  | createSession id =>
    simp only [step] at hstep
    split at hstep
    next =>
      cases hstep
      refine hw fun hc => ?_
      have hb : s.baseList C = s.lists none := by
        unfold cell at hc
        split at hc
        next => cases hc
        next hm => simp only [baseList, hm]
      rw [isSome_ensureRuntimeCatalog, isSome_registerOverlayCatalogs, hb]
      exact .inr (.inr h)
    next => cases hstep
  | registerBootViews id =>
    simp only [step] at hstep
    split at hstep
    next =>
      cases hstep
      exact hw fun hc => by rw [isSome_registerOrgViews]; exact hli hc
    next => cases hstep
  | captureBoot id =>
    simp only [step] at hstep
    split at hstep
    next =>
      cases hstep
      exact hw hli
    next => cases hstep
  | swapCatalogs id org =>
    simp only [step] at hstep
    split at hstep
    next =>
      cases hstep
      exact hw fun hc => isSome_swappedList_of_isSome (hli hc)
    next => cases hstep
  | swapViews id =>
    simp only [step] at hstep
    split at hstep
    next =>
      cases hstep
      refine hw fun hc => ?_
      split_ifs
      · exact hli hc
      · rw [isSome_swapViews]
        exact hli hc
    next => cases hstep

theorem isSome_baseList_of_run {catalogs views run} (hr : Runs.run (step C) (boot C catalogs views) run = some s) {n}
    (h : (C.engineList n).isSome) : (s.baseList C n).isSome := by
  unfold CatalogConfig.engineList at h
  unfold baseList
  cases hm : C.mode with
  | singleNode => simpa only [hm] using h
  | distributed =>
    simp only [hm] at h ⊢
    have ha : Runs.Along (step C) (fun _ _ s' => (s'.lists none n).isSome) (boot C catalogs views) run :=
      Runs.along_of_inv (fun s => (s.lists none n).isSome)
        (fun _ _ _ hi hstep => ⟨isSome_lists_step hstep hi, isSome_lists_step hstep hi⟩) run h
    exact ha.at_end h hr

/-- Where all that sessions come with is of the org or the engine's, so is what they know. -/
theorem known_iff {n} (hl : ∀ n, C.EngineLocal n → n = runtimeCatalog ∨ (s.baseList C n).isSome)
    (hc : ∀ n, n ∈ s.currentCatalogsForOrg C C.bootOrg ∨ (s.baseList C n).isSome →
      n ∈ s.currentCatalogsForOrg C org ∨ C.EngineLocal n) :
    Known C s org n ↔ n ∈ s.currentCatalogsForOrg C org ∨ C.EngineLocal n := by
  refine ⟨?_, fun h => h.imp_right fun h => .inr (hl n h)⟩
  rintro (h | h | h | h)
  · exact .inl h
  · exact hc n (.inl h)
  · exact .inr (.inl h)
  · exact hc n (.inr h)

/-- **What the `database` parameter tells.** In every state that the server can reach, and for any two states of the
catalog registry that give an org the same catalogs: a connection of the org gets the same answer in both, and is
refused every name that is neither one of its catalogs nor the engine's, exactly when the catalogs of the boot org, and
those that other connections have left in a shared list, are of the org or the engine's too. -/
theorem startup_reveals_nothing_iff (C : CatalogConfig P V) {catalogs : HashMap (CatalogSnapshot P)}
    {views : HashMap (OrgViews V)} {run : List (SessionEvent P V)}
    (hrun : Runs.run (step C) (boot C catalogs views) run = some s) (hnew : s.connections id = none)
    (horg : org ≠ C.bootOrg) (R₁ R₂ : HashMap (CatalogSnapshot P))
    (hagree : ∀ n, n ∈ { s with catalogs := R₁ }.currentCatalogsForOrg C org ↔
      n ∈ { s with catalogs := R₂ }.currentCatalogsForOrg C org) :
    ((∀ database, { s with catalogs := R₁ }.connect C id org database =
        { s with catalogs := R₂ }.connect C id org database) ∧
      ∀ db, db ∉ { s with catalogs := R₁ }.currentCatalogsForOrg C org → ¬ C.EngineLocal db →
        { s with catalogs := R₁ }.connect C id org (some db) = some (.error (unknownDatabase db)) ∧
          { s with catalogs := R₂ }.connect C id org (some db) = some (.error (unknownDatabase db))) ↔
      ∀ n, n ∈ { s with catalogs := R₁ }.currentCatalogsForOrg C C.bootOrg ∨
          n ∈ { s with catalogs := R₂ }.currentCatalogsForOrg C C.bootOrg ∨ (s.baseList C n).isSome →
        n ∈ { s with catalogs := R₁ }.currentCatalogsForOrg C org ∨ C.EngineLocal n := by
  have hn₁ : { s with catalogs := R₁ }.connections id = none := hnew
  have hn₂ : { s with catalogs := R₂ }.connections id = none := hnew
  constructor
  · rintro ⟨-, hr⟩ n hn
    by_contra hno
    obtain ⟨ho, hl⟩ := not_or.mp hno
    obtain ⟨h₁, h₂⟩ := hr n ho hl
    rcases hn with hn | hn | hn
    · cases (connect_of_known hn₁ horg (.inr (.inl hn))).symm.trans h₁
    · cases (connect_of_known hn₂ horg (.inr (.inl hn))).symm.trans h₂
    · cases (connect_of_known hn₁ horg (.inr (.inr (.inr hn)))).symm.trans h₁
  · intro hc
    have hl : ∀ n, C.EngineLocal n → n = runtimeCatalog ∨ (s.baseList C n).isSome := fun n hn =>
      hn.imp_right (isSome_baseList_of_run hrun)
    have hk₁ : ∀ n, Known C { s with catalogs := R₁ } org n ↔
        n ∈ { s with catalogs := R₁ }.currentCatalogsForOrg C org ∨ C.EngineLocal n := fun n =>
      known_iff hl fun n hn => hc n (hn.imp_right .inr)
    have hk₂ : ∀ n, Known C { s with catalogs := R₂ } org n ↔
        n ∈ { s with catalogs := R₁ }.currentCatalogsForOrg C org ∨ C.EngineLocal n := by
      intro n
      have hc₂ : ∀ n, n ∈ { s with catalogs := R₂ }.currentCatalogsForOrg C C.bootOrg ∨ (s.baseList C n).isSome →
          n ∈ { s with catalogs := R₂ }.currentCatalogsForOrg C org ∨ C.EngineLocal n := fun n hn =>
        (hc n (.inr hn)).imp_left (hagree n).mp
      rw [hagree]
      exact known_iff hl hc₂
    refine ⟨fun database => ?_, fun db ho hno => ?_⟩
    · cases database with
      | none => rw [connect_none hn₁ horg, connect_none hn₂ horg]
      | some db =>
        by_cases h : db ∈ { s with catalogs := R₁ }.currentCatalogsForOrg C org ∨ C.EngineLocal db
        · rw [connect_of_known hn₁ horg ((hk₁ db).mpr h), connect_of_known hn₂ horg ((hk₂ db).mpr h)]
        · rw [connect_of_not_known hn₁ horg (mt (hk₁ db).mp h),
            connect_of_not_known hn₂ horg (mt (hk₂ db).mp h)]
    · have h : ¬ (db ∈ { s with catalogs := R₁ }.currentCatalogsForOrg C org ∨ C.EngineLocal db) :=
        not_or.mpr ⟨ho, hno⟩
      exact ⟨connect_of_not_known hn₁ horg (mt (hk₁ db).mp h),
        connect_of_not_known hn₂ horg (mt (hk₂ db).mp h)⟩

def mainServer : CatalogConfig String String where
  mode := .singleNode
  bootOrg := "main"
  defaultCatalog := "dataglot"
  defaultSchema := "public"
  controlPlane := true
  catalogs := ∅
  localSchemas := AList.singleton "dataglot" ["public"]
  hasTable _ _ _ := false
  template _ := none

/-- What the orgs `main` and `acme` have, a catalog by its name and source. -/
def registryOf (main acme : CatalogSnapshot String) : HashMap (CatalogSnapshot String) :=
  (AList.singleton "main" main).insert "acme" acme

/-- The org `acme` has the boot org's one catalog too, and cannot tell whether the boot org has it. -/
theorem startup_reveals_nothing_of_shared_catalog :
    let pg : CatalogSnapshot String := AList.singleton "pg" "postgres"
    let s := boot mainServer ∅ ∅
    { s with catalogs := registryOf pg pg }.connect mainServer 0 "acme" (some "pg") =
      { s with catalogs := registryOf ∅ pg }.connect mainServer 0 "acme" (some "pg") := by
  intro pg s
  have hr : Runs.run (step mainServer) (boot mainServer ∅ ∅) [] = some s := rfl
  have hne : s.connections 0 = none := rfl
  have hi := startup_reveals_nothing_iff mainServer hr hne (by decide : "acme" ≠ mainServer.bootOrg)
    (registryOf pg pg) (registryOf ∅ pg) fun n => Iff.rfl
  refine (hi.mpr ?_).1 (some "pg")
  rintro n (hn | hn | hn)
  · exact .inl hn
  · cases hn
  · exact .inr (.inr hn)

/-- The boot org has a catalog `payroll` or not, and `acme` has none. A connection of `acme` that asks for the
database `payroll` is accepted in the one case and refused in the other. -/
theorem startup_reveals_boot_catalog :
    let s := boot mainServer ∅ ∅
    let payroll : CatalogSnapshot String := AList.singleton "payroll" "postgres"
    { s with catalogs := registryOf payroll ∅ }.connect mainServer 0 "acme" (some "payroll") =
        some (.ok (some "payroll")) ∧
      { s with catalogs := registryOf ∅ ∅ }.connect mainServer 0 "acme" (some "payroll") =
        some (.error ⟨"3D000", "database \"payroll\" does not exist"⟩) := by
  decide +kernel

end ServerState

end Dataglot
