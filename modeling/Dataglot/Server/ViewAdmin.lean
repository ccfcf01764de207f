/-
`CREATE` and `DROP VIEW` against the store and the live registry (`view_admin.rs`), under
the handler that registers a view in its session (`apply_view_ddl` in `handler.rs`).

The handler plans the query, has the view stored and made live, and then registers it in
the session. If the session does not take it, the handler drops the view again, which
takes away whatever had the name before, too.
-/
import Dataglot.Catalog.StoreState
import Dataglot.Pgwire.Handler
import Dataglot.Server.SessionCatalogs

namespace Dataglot
open DataFusion EmbeddedMetaStore List Finmap

/-! ## The admin -/

inductive ViewAdminError
  | alreadyExists (name : String)
  | notFound (name : String)
  | invalidQuery (reason : String)
  | backend (reason : String)
  deriving DecidableEq, Repr

/-- `view_ddl_error`, with `debug` for `Debug` of a name. -/
def viewDdlError (debug : String → String) : ViewAdminError → PgWireError
  | .alreadyExists name => ⟨"42710", "view " ++ debug name ++ " already exists"⟩
  | .notFound name => ⟨"42704", "view " ++ debug name ++ " does not exist"⟩
  | .invalidQuery reason => ⟨"42601", "invalid view query: " ++ reason⟩
  | .backend reason => ⟨"58000", reason⟩

def viewReference (record : DerivedProductRecord) : TableReference :=
  match record.catalog, record.schema with
  | some catalog, some schema => .full catalog schema record.name
  | _, some schema => .partialRef schema record.name
  | _, _ => .bare record.name

structure ViewPlane (Provider : Type) where
  store : State
  registry : StoreMap (StoreMap (RegisteredView Provider))

/-- The store calls that fail, with what they say. -/
structure ViewStoreFaults where
  getDerivedProduct : Option String
  putDerivedProduct : Option String
  deleteDerivedProduct : Option String

namespace ViewPlane

variable {Provider : Type} (v : ViewPlane Provider)

def persisted (org name : String) : Option DerivedProductRecord := v.store.find .derivedProducts org name

def live (org name : String) : Option (RegisteredView Provider) :=
  ((v.registry.lookup org).getD ∅).lookup name

def registerLive (org : String) (record : DerivedProductRecord) (provider : Provider) : ViewPlane Provider :=
  let views := ((v.registry.lookup org).getD ∅).insert record.name ⟨viewReference record, provider⟩
  { v with registry := v.registry.insert org views }

def unregisterLive (org name : String) : ViewPlane Provider :=
  match v.registry.lookup org with
  | some views => { v with registry := v.registry.insert org (views.erase name) }
  | none => v

end ViewPlane

namespace StoreViewAdmin

variable {Provider : Type}

/-- `backend`: a store error. -/
def backend (e : String) : ViewAdminError := .backend ("view store: " ++ e)

def apply (faults : ViewStoreFaults) (v : ViewPlane Provider) (org : String) (ddl : ViewDdl)
    (provider : Option Provider) : Except ViewAdminError ViewAdminOutcome × ViewPlane Provider :=
  match faults.getDerivedProduct with
  | some e => (.error (backend e), v)
  | none =>
    match ddl with
    | .create catalog schema name query orReplace =>
      let there := (v.persisted org name).isSome
      if there && !orReplace then (.error (.alreadyExists name), v)
      else
        let record : DerivedProductRecord := ⟨name, query, catalog, schema⟩
        match faults.putDerivedProduct with
        | some e => (.error (backend e), v)
        | none =>
          let v := { v with store := v.store.putDerivedProduct org record }
          let v := match provider with
            | some provider => v.registerLive org record provider
            | none => v
          (.ok (if there then .replaced else .created), v)
    | .drop _ _ name ifExists =>
      -- the session forgets the view under the qualifiers that are stored
      let stored := v.persisted org name
      match faults.deleteDerivedProduct with
      | some e => (.error (backend e), v)
      | none =>
        let v : ViewPlane Provider := { v with store := (v.store.deleteDerivedProduct org name).1 }
        let v := v.unregisterLive org name
        match stored with
        | some record => (.ok (.dropped record.catalog record.schema record.name), v)
        | none => if ifExists then (.ok .noOp, v) else (.error (.notFound name), v)

/-! ## What the statements leave -/

variable {v : ViewPlane Provider} {org name : String}

/-- The views of all orgs are the same, in the store and live. -/
def SameViews (v' v : ViewPlane Provider) : Prop :=
  ∀ org name, v'.persisted org name = v.persisted org name ∧ v'.live org name = v.live org name

/-- With the view, in place of one that had its name. -/
def withView (v : ViewPlane Provider) (org : String) (record : DerivedProductRecord) (provider : Provider) :
    ViewPlane Provider :=
  ({ v with store := v.store.putDerivedProduct org record } : ViewPlane Provider).registerLive org record provider

/-- Without a view of the name. -/
def withoutView (v : ViewPlane Provider) (org name : String) : ViewPlane Provider :=
  ({ v with store := (v.store.deleteDerivedProduct org name).1 } : ViewPlane Provider).unregisterLive org name

theorem persisted_withView (record provider org' name') : (withView v org record provider).persisted org' name' =
      if org' = org ∧ name' = record.name then some record else v.persisted org' name' :=
  State.find_put ..

theorem live_withView (record provider org' name') :
    (withView v org record provider).live org' name' =
      if org' = org ∧ name' = record.name then some ⟨viewReference record, provider⟩ else v.live org' name' := by
  unfold withView ViewPlane.live ViewPlane.registerLive
  by_cases ho : org' = org
  · subst ho
    rw [lookup_insert, Option.getD_some]
    by_cases hname : name' = record.name
    · subst hname
      simp
    · simp [hname, lookup_insert_of_ne]
  · simp [ho, lookup_insert_of_ne]

theorem persisted_withoutView (org' name') : (withoutView v org name).persisted org' name' =
      if org' = org ∧ name' = name then none else v.persisted org' name' := by
  unfold withoutView ViewPlane.unregisterLive
  split <;> exact State.find_remove ..

theorem live_withoutView (org' name') :
    (withoutView v org name).live org' name' = if org' = org ∧ name' = name then none else v.live org' name' := by
  unfold withoutView ViewPlane.unregisterLive ViewPlane.live
  cases hv : v.registry.lookup org with
  | none =>
    dsimp only
    split_ifs with h
    · rw [h.1, hv]
      rfl
    · rfl
  | some views =>
    dsimp only
    by_cases ho : org' = org
    · subst ho
      rw [lookup_insert, Option.getD_some]
      by_cases hname : name' = name
      · subst hname
        simp
      · simp [hname, hv, lookup_erase_ne]
    · simp [ho, lookup_insert_of_ne]

/-- A new view that stays is as if nothing had happened, iff it was there. -/
theorem sameViews_withView_iff {record provider} : SameViews (withView v org record provider) v ↔
      v.persisted org record.name = some record ∧ v.live org record.name = some ⟨viewReference record, provider⟩ := by
  constructor
  · intro h
    obtain ⟨hs, hl⟩ := h org record.name
    rw [persisted_withView, if_pos ⟨rfl, rfl⟩] at hs
    rw [live_withView, if_pos ⟨rfl, rfl⟩] at hl
    exact ⟨hs.symm, hl.symm⟩
  · rintro ⟨hs, hl⟩ org' name'
    rw [persisted_withView, live_withView]
    split_ifs with h
    · rw [h.1, h.2, hs, hl]
      exact ⟨rfl, rfl⟩
    · exact ⟨rfl, rfl⟩

/-- A new view that is dropped again is as if nothing had happened, iff there was none of its name. -/
theorem sameViews_rolled_back_iff {record provider} :
    SameViews (withoutView (withView v org record provider) org record.name) v ↔
      v.persisted org record.name = none ∧ v.live org record.name = none := by
  constructor
  · intro h
    obtain ⟨hs, hl⟩ := h org record.name
    rw [persisted_withoutView, if_pos ⟨rfl, rfl⟩] at hs
    rw [live_withoutView, if_pos ⟨rfl, rfl⟩] at hl
    exact ⟨hs.symm, hl.symm⟩
  · rintro ⟨hs, hl⟩ org' name'
    rw [persisted_withoutView, live_withoutView, persisted_withView, live_withView]
    split_ifs with h
    · rw [h.1, h.2, hs, hl]
      exact ⟨rfl, rfl⟩
    · exact ⟨rfl, rfl⟩

theorem apply_create_cases (faults v org catalog schema name query orReplace) (provider : Provider) :
    (∃ e, apply faults v org (.create catalog schema name query orReplace) (some provider) = (.error e, v)) ∨
    ∃ outcome, (outcome = .created ∨ outcome = .replaced) ∧
      apply faults v org (.create catalog schema name query orReplace) (some provider) =
        (.ok outcome, withView v org ⟨name, query, catalog, schema⟩ provider) := by
  unfold apply
  cases faults.getDerivedProduct with
  | some e => exact .inl ⟨backend e, rfl⟩
  | none =>
    dsimp only
    by_cases ht : ((v.persisted org name).isSome && !orReplace) = true
    · exact .inl ⟨.alreadyExists name, by rw [if_pos ht]⟩
    · rw [if_neg ht]
      cases faults.putDerivedProduct with
      | some e => exact .inl ⟨backend e, rfl⟩
      | none =>
        refine .inr ⟨_, ?_, rfl⟩
        split_ifs
        · exact .inr rfl
        · exact .inl rfl

theorem apply_drop_snd (faults v org catalog schema name) (provider : Option Provider) :
    (apply faults v org (.drop catalog schema name true) provider).2 =
      if faults.getDerivedProduct = none ∧ faults.deleteDerivedProduct = none then withoutView v org name else v := by
  unfold apply
  cases faults.getDerivedProduct with
  | some e => rfl
  | none =>
    cases faults.deleteDerivedProduct with
    | some e => rfl
    | none =>
      dsimp only
      cases v.persisted org name <;> rfl

end StoreViewAdmin

/-! ## Under the handler -/

/-- What the admin has to do with besides its own state: the provider that the handler builds for a query, and the
store calls that fail, after the calls made so far. -/
structure ViewSeam (Provider : Type) where
  viewTable : List Call → String → Provider
  faults : List Call → ViewStoreFaults
  debug : String → String

namespace ViewSeam

variable {R Provider : Type} (D : ViewSeam Provider)

def applyAt (before : List Call) (v : ViewPlane Provider) (org : String) (ddl : ViewDdl) :
    Except ViewAdminError ViewAdminOutcome × ViewPlane Provider :=
  StoreViewAdmin.apply (D.faults before) v org ddl <|
    match ddl with
    | .create _ _ _ query _ => some (D.viewTable before query)
    | .drop .. => none

/-- A call of the handler as it goes to the admin. -/
def step (before : List Call) (v : ViewPlane Provider) : Call → ViewPlane Provider
  | .apply org (.view ddl) => (D.applyAt before v org ddl).2
  | _ => v

/-- Calls of the handler, after others. -/
def resume : List Call → ViewPlane Provider → List Call → ViewPlane Provider
  | _, v, [] => v
  | before, v, call :: calls => resume (before ++ [call]) (D.step before v call) calls

def after (v : ViewPlane Provider) (calls : List Call) : ViewPlane Provider := D.resume [] v calls

/-- The handler with this admin behind it. -/
def surroundings (E : Surroundings R) (v : ViewPlane Provider) : Surroundings R :=
  { E with viewApply := fun before ddl =>
      (D.applyAt before (D.after v before) E.org ddl).1.mapError (viewDdlError D.debug) }

theorem resume_append (before v xs ys) :
    D.resume before v (xs ++ ys) = D.resume (before ++ xs) (D.resume before v xs) ys := by
  induction xs generalizing before v with
  | nil => simp [resume]
  | cons x xs ih => rw [cons_append, resume, ih, resume, append_assoc, singleton_append]

theorem after_append (v before calls) :
    D.after v (before ++ calls) = D.resume before (D.after v before) calls := by
  rw [after, resume_append, nil_append, after]

/-- `CREATE VIEW` has the view stored and live, and then the session does not take it. -/
structure FailsLate (E : Surroundings R) (before : List Call) (v : ViewPlane Provider)
    (catalog schema : Option String) (name query : String) (orReplace : Bool) : Prop where
  configured : E.configured .view = true
  planned : ∃ plan, E.createLogicalPlan before query = .ok plan
  applied : ∃ outcome, (D.applyAt (before ++ [.createLogicalPlan query]) v E.org
    (.create catalog schema name query orReplace)).1 = .ok outcome
  unregistered : ∃ e, E.registerTable (before ++
      [.createLogicalPlan query, .apply E.org (.view (.create catalog schema name query orReplace))])
    (viewTableReference catalog schema name) = .error e

/-- The store calls that fail when the handler drops the view again. -/
def rollbackFaults (E : Surroundings R) (before : List Call) (catalog schema : Option String) (name query : String)
    (orReplace : Bool) : ViewStoreFaults :=
  D.faults (before ++ [.createLogicalPlan query, .apply E.org (.view (.create catalog schema name query orReplace)),
    .registerTable (viewTableReference catalog schema name)])

variable {D} {E : Surroundings R} {v₀ : ViewPlane Provider} {before : List Call} {catalog schema : Option String}
  {name query : String} {orReplace : Bool}

theorem after_createLogicalPlan : D.after v₀ (before ++ [.createLogicalPlan query]) = D.after v₀ before := by
  rw [after_append]
  rfl

theorem applyAt_create_cases (calls v org) :
    (∃ e, D.applyAt calls v org (.create catalog schema name query orReplace) = (.error e, v)) ∨
    ∃ outcome, (outcome = .created ∨ outcome = .replaced) ∧
      D.applyAt calls v org (.create catalog schema name query orReplace) =
        (.ok outcome, StoreViewAdmin.withView v org ⟨name, query, catalog, schema⟩ (D.viewTable calls query)) :=
  StoreViewAdmin.apply_create_cases ..

theorem viewApply_surroundings (ddl) :
    (D.surroundings E v₀).viewApply (before ++ [.createLogicalPlan query]) ddl =
      (D.applyAt (before ++ [.createLogicalPlan query]) (D.after v₀ before) E.org ddl).1.mapError
        (viewDdlError D.debug) := by
  dsimp only [surroundings]
  rw [after_createLogicalPlan]

section Stages

variable {S : Surroundings R}

theorem applyViewDdl_of_not_configured (ddl) (h : S.configured .view = false) :
    (applyViewDdl S before ddl).1 = [] := by
  unfold applyViewDdl
  rw [if_neg (by rw [h]; nofun)]

theorem applyViewDdl_of_not_planned (hc : S.configured .view = true) {e}
    (hplan : S.createLogicalPlan before query = .error e) :
    (applyViewDdl S before (.create catalog schema name query orReplace)).1 = [.createLogicalPlan query] := by
  simp only [applyViewDdl, hc, if_true, hplan]

theorem applyViewDdl_of_refused (hc : S.configured .view = true) {plan}
    (hplan : S.createLogicalPlan before query = .ok plan) {e}
    (hv : S.viewApply (before ++ [.createLogicalPlan query]) (.create catalog schema name query orReplace) =
      .error e) :
    (applyViewDdl S before (.create catalog schema name query orReplace)).1 =
      [.createLogicalPlan query, .apply S.org (.view (.create catalog schema name query orReplace))] := by
  simp only [applyViewDdl, hc, if_true, hplan, hv]

theorem applyViewDdl_of_stored {plan outcome}
    (hc : S.configured .view = true) (hplan : S.createLogicalPlan before query = .ok plan)
    (ho : outcome = .created ∨ outcome = .replaced)
    (hv : S.viewApply (before ++ [.createLogicalPlan query]) (.create catalog schema name query orReplace) =
      .ok outcome)
    {registered} (hr : S.registerTable (before ++
        [.createLogicalPlan query, .apply S.org (.view (.create catalog schema name query orReplace))])
      (viewTableReference catalog schema name) = registered) :
    applyViewDdl S before (.create catalog schema name query orReplace) =
      match registered with
      | .ok _ => ([.createLogicalPlan query, .apply S.org (.view (.create catalog schema name query orReplace)),
          .registerTable (viewTableReference catalog schema name)], .ok "CREATE VIEW")
      | .error e => ([.createLogicalPlan query, .apply S.org (.view (.create catalog schema name query orReplace)),
          .registerTable (viewTableReference catalog schema name),
          .apply S.org (.view (.drop catalog schema name true))],
          .error ⟨"58000", "register view in session: " ++ e⟩) := by
  rcases ho with rfl | rfl <;>
  · simp only [applyViewDdl, hc, if_true, hplan, hv, hr]
    cases registered <;> rfl

end Stages

theorem after_failsLate (ha : (D.applyAt (before ++ [.createLogicalPlan query]) (D.after v₀ before) E.org
      (.create catalog schema name query orReplace)).2 =
        StoreViewAdmin.withView (D.after v₀ before) E.org ⟨name, query, catalog, schema⟩
          (D.viewTable (before ++ [.createLogicalPlan query]) query)) :
    D.after v₀ (before ++ [.createLogicalPlan query,
        .apply E.org (.view (.create catalog schema name query orReplace)),
        .registerTable (viewTableReference catalog schema name),
        .apply E.org (.view (.drop catalog schema name true))]) =
      (StoreViewAdmin.apply (D.rollbackFaults E before catalog schema name query orReplace)
        (StoreViewAdmin.withView (D.after v₀ before) E.org ⟨name, query, catalog, schema⟩
          (D.viewTable (before ++ [.createLogicalPlan query]) query)) E.org
        (.drop catalog schema name true) none).2 := by
  rw [after_append]
  simp only [resume, step, ha, append_assoc, cons_append, nil_append]
  rfl

/-- Unless it fails late, a statement that returns an error leaves the views as they were. -/
theorem after_of_error (hlate : ¬ D.FailsLate E before (D.after v₀ before) catalog schema name query orReplace) {e}
    (herror : (applyViewDdl (D.surroundings E v₀) before (.create catalog schema name query orReplace)).2 = .error e) :
    D.after v₀ (before ++
        (applyViewDdl (D.surroundings E v₀) before (.create catalog schema name query orReplace)).1) =
      D.after v₀ before := by
  have hv : (D.surroundings E v₀).viewApply (before ++ [.createLogicalPlan query])
      (.create catalog schema name query orReplace) = _ := viewApply_surroundings _
  cases hc : E.configured .view with
  | false => rw [applyViewDdl_of_not_configured (S := D.surroundings E v₀) _ hc, append_nil]
  | true =>
    cases hplan : E.createLogicalPlan before query with
    | error e =>
      rw [applyViewDdl_of_not_planned (S := D.surroundings E v₀) hc hplan, after_createLogicalPlan]
    | ok plan =>
      rcases D.applyAt_create_cases (before ++ [.createLogicalPlan query]) (D.after v₀ before) E.org with
        ⟨e, ha⟩ | ⟨outcome, ho, ha⟩
      · rw [ha] at hv
        rw [applyViewDdl_of_refused (S := D.surroundings E v₀) hc hplan hv, after_append]
        exact congrArg Prod.snd ha
      · -- the view is stored, so it is the session that fails
        rw [ha] at hv
        obtain ⟨registered, hr⟩ : ∃ registered, E.registerTable (before ++
            [.createLogicalPlan query, .apply E.org (.view (.create catalog schema name query orReplace))])
          (viewTableReference catalog schema name) = registered := ⟨_, rfl⟩
        rw [applyViewDdl_of_stored (S := D.surroundings E v₀) hc hplan ho hv hr] at herror
        cases registered with
        | ok _ => cases herror
        | error e =>
          exact absurd ⟨hc, ⟨plan, hplan⟩, ⟨outcome, congrArg Prod.fst ha⟩, ⟨e, hr⟩⟩ hlate

/-- A statement that fails late returns an error, after four calls. -/
theorem FailsLate.handled (h : D.FailsLate E before (D.after v₀ before) catalog schema name query orReplace) :
    ∃ e, applyViewDdl (D.surroundings E v₀) before (.create catalog schema name query orReplace) =
        ([.createLogicalPlan query, .apply E.org (.view (.create catalog schema name query orReplace)),
          .registerTable (viewTableReference catalog schema name),
          .apply E.org (.view (.drop catalog schema name true))], .error e) ∧
      (D.applyAt (before ++ [.createLogicalPlan query]) (D.after v₀ before) E.org
          (.create catalog schema name query orReplace)).2 =
        StoreViewAdmin.withView (D.after v₀ before) E.org ⟨name, query, catalog, schema⟩
          (D.viewTable (before ++ [.createLogicalPlan query]) query) := by
  obtain ⟨hc, ⟨plan, hplan⟩, ⟨outcome, hok⟩, e, hr⟩ := h
  have hv : (D.surroundings E v₀).viewApply (before ++ [.createLogicalPlan query])
      (.create catalog schema name query orReplace) = _ := viewApply_surroundings _
  rcases D.applyAt_create_cases (before ++ [.createLogicalPlan query]) (D.after v₀ before) E.org with
    ⟨e', ha⟩ | ⟨outcome, ho, ha⟩
  · rw [ha] at hok
    cases hok
  · rw [ha] at hv
    have hh := applyViewDdl_of_stored (S := D.surroundings E v₀) hc hplan ho hv hr
    exact ⟨_, hh, congrArg Prod.snd ha⟩

/-- `CREATE VIEW` that returns an error leaves the views as they were, iff one that fails late finds no view of its
name when it is rolled back, and the very same view when the rollback fails. -/
theorem create_view_atomic_iff (D : ViewSeam Provider) (E : Surroundings R) (v₀ : ViewPlane Provider)
    (before : List Call) (catalog schema : Option String) (name query : String) (orReplace : Bool) :
    let handled := applyViewDdl (D.surroundings E v₀) before (.create catalog schema name query orReplace)
    let v := D.after v₀ before
    let record : DerivedProductRecord := ⟨name, query, catalog, schema⟩
    let rollback := D.rollbackFaults E before catalog schema name query orReplace
    (∀ e, handled.2 = .error e → StoreViewAdmin.SameViews (D.after v₀ (before ++ handled.1)) v) ↔
      (D.FailsLate E before v catalog schema name query orReplace →
        if rollback.getDerivedProduct = none ∧ rollback.deleteDerivedProduct = none then
          v.persisted E.org name = none ∧ v.live E.org name = none
        else
          v.persisted E.org name = some record ∧
            v.live E.org name =
              some ⟨viewReference record, D.viewTable (before ++ [.createLogicalPlan query]) query⟩) := by
  intro handled v record rollback
  by_cases hlate : D.FailsLate E before v catalog schema name query orReplace
  · obtain ⟨e, hh, hap⟩ := hlate.handled
    have ha : D.after v₀ (before ++ handled.1) = _ :=
      (congrArg (fun h => D.after v₀ (before ++ h.1)) hh).trans (after_failsLate hap)
    have hs : (∀ e, handled.2 = .error e → StoreViewAdmin.SameViews (D.after v₀ (before ++ handled.1)) v) ↔
        StoreViewAdmin.SameViews (D.after v₀ (before ++ handled.1)) v :=
      ⟨fun h => h e (congrArg Prod.snd hh), fun h _ _ => h⟩
    rw [StoreViewAdmin.apply_drop_snd] at ha
    rw [hs, ha, imp_iff_right hlate]
    split_ifs
    · exact StoreViewAdmin.sameViews_rolled_back_iff
    · exact StoreViewAdmin.sameViews_withView_iff
  · refine iff_of_true (fun e herror => ?_) fun h => absurd h hlate
    rw [after_of_error hlate herror]
    exact fun _ _ => ⟨rfl, rfl⟩

/-- A view is replaced by one for a catalog that takes no views: the statement fails, and the old view is gone from
the store and from the registry. -/
theorem failed_replace_drops_view :
    let E : Surroundings Unit :=
      { configured := fun _ => true
        currentSessionOrg := some "acme"
        catalogApply := fun _ _ => .ok .noOp
        viewApply := fun _ _ => .ok .noOp
        seamApply := fun _ _ => .ok ()
        createLogicalPlan := fun _ _ => .ok ()
        registerTable := fun _ _ => .error "the catalog is read-only"
        deregisterTable := fun _ _ => .ok ()
        buildCopyOutResponse := fun _ _ => .ok ()
        applyPreparseRewrites := fun _ => none
        rejectDeepCompoundIdentifier := fun _ => none
        innerDoQuery := fun _ _ => .ok [] }
    let D : ViewSeam String := ⟨fun _ query => query, fun _ => ⟨none, none, none⟩, fun name => name⟩
    let old : DerivedProductRecord := ⟨"sales", "SELECT 1", none, none⟩
    let v : ViewPlane String := StoreViewAdmin.withView ⟨⟨∅⟩, ∅⟩ "acme" old "SELECT 1"
    let handled := applyViewDdl (D.surroundings E v) [] (.create (some "pg") (some "public") "sales" "SELECT 2" true)
    handled.2 = .error ⟨"58000", "register view in session: the catalog is read-only"⟩ ∧
      v.persisted "acme" "sales" = some old ∧ v.live "acme" "sales" = some ⟨.bare "sales", "SELECT 1"⟩ ∧
      (D.after v handled.1).persisted "acme" "sales" = none ∧ (D.after v handled.1).live "acme" "sales" = none := by
  intro E D old v handled
  exact ⟨rfl, rfl, rfl, rfl, rfl⟩

end ViewSeam

end Dataglot
