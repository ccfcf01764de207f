/-
`CREATE`, `ALTER` and `DROP CATALOG` against the store (`catalog_admin.rs`).

A catalog is stored with two writes, first its binding, then its source config; the source
is built before either. A store call that fails leaves what is stored as it was, so a
failure between the two writes leaves the new binding with the old source config, or with
none.
-/
import Dataglot.Catalog.StoreState

namespace Dataglot
open EmbeddedMetaStore State

inductive CatalogAdminError
  | alreadyExists (name : String)
  | notFound (name : String)
  | invalidOptions (reason : String)
  | backend (reason : String)
  deriving DecidableEq, Repr

/-- What the statements need besides the store, for each kind of source. -/
structure CatalogSources (Config Provider : Type) where
  /-- `serde_json::from_str`. -/
  fromStr : String → Except String Json
  fromValue : Json → Except String Config
  toValue : Config → Except String Json
  binding : Config → CatalogBinding
  /-- `resolve_catalog_secrets`, for an org. -/
  resolveCatalogSecrets : String → Config → Except String Config
  /-- `build_one_connector`. -/
  build : String → Config → Except String Provider
  /-- `Debug` of a name. -/
  debug : String → String

/-- The store calls that fail, with what they say. -/
structure CatalogStoreFaults where
  listBindings : Option String
  upsertBinding : Option String
  setSourceConfig : Option String
  deleteBinding : Option String

namespace StoreCatalogAdmin

/-- What the session is to do: `CatalogAdminOutcome` with the provider. -/
inductive Outcome (Provider : Type)
  | registered (name : String) (provider : Provider)
  | dropped (name : String)
  | noOp

variable {Config Provider : Type} (C : CatalogSources Config Provider) (faults : CatalogStoreFaults)

/-- A value that starts with `[` or `{` is read as JSON, every other one is a string. -/
def optionValue (key value : String) : Except CatalogAdminError Json :=
  match (Text.trimStart value.toList).head? with
  | some '[' | some '\x7b' =>
    (C.fromStr value).mapError fun e => .invalidOptions ("option `" ++ key ++
      "` looks like JSON (starts with `[` or `\x7b`) but did not parse: " ++ e)
  | _ => .ok (.string value)

/-- `options_to_config`. The options come in the order in which the map is iterated over. -/
def optionsToConfig (options : HashMap String) : Except CatalogAdminError Config :=
  if "kind" ∈ options then do
    let fields ← options.entries.mapM fun o => do return (o.1, ← optionValue C o.1 o.2)
    (C.fromValue (.object fields)).mapError .invalidOptions
  else .error (.invalidOptions "missing required option `kind` (e.g. kind='postgres')")

/-- `backend`: a store error. -/
def backend (e : String) : CatalogAdminError := .backend ("catalog store: " ++ e)

/-- The part of `build_and_persist` before the writes: the provider, and the config as it is stored. -/
def prepare (org name : String) (cfg : Config) : Except CatalogAdminError (Provider × Json) := do
  -- the source is built with the secrets, the config is stored with their names
  let runtime ← (C.resolveCatalogSecrets org cfg).mapError .invalidOptions
  let provider ← (C.build name runtime).mapError fun e => .backend ("catalog " ++ C.debug name ++ ": " ++ e)
  let serialized ← (C.toValue cfg).mapError fun e =>
    .backend ("catalog " ++ C.debug name ++ ": serialize config: " ++ e)
  return (provider, serialized)

def buildAndPersist (s : State) (org name : String) (cfg : Config) : Except CatalogAdminError Provider × State :=
  match prepare C org name cfg with
  | .error e => (.error e, s)
  | .ok (provider, serialized) =>
    match faults.upsertBinding with
    | some e => (.error (backend e), s)
    | none =>
      let s := (s.upsertBinding org name (C.binding cfg)).1
      match faults.setSourceConfig with
      | some e => (.error (backend e), s)
      | none => (.ok provider, (s.setSourceConfig org name serialized).1)

def bindingExists (s : State) (org name : String) : Except CatalogAdminError Bool :=
  match faults.listBindings with
  | some e => .error (backend e)
  | none => .ok (s.find .entries org name).isSome

/-- The end of `CREATE` and of `ALTER`. -/
def register (s : State) (org name : String) (options : HashMap String) :
    Except CatalogAdminError (Outcome Provider) × State :=
  match optionsToConfig C options with
  | .error e => (.error e, s)
  | .ok cfg =>
    let (provider, s) := buildAndPersist C faults s org name cfg
    (provider.map (.registered name), s)

def apply (s : State) (org : String) : CatalogDdl → Except CatalogAdminError (Outcome Provider) × State
  | .create name options orReplace ifNotExists =>
    match bindingExists faults s org name with
    | .error e => (.error e, s)
    | .ok true =>
      if ifNotExists then (.ok .noOp, s)
      else if orReplace then register C faults s org name options
      else (.error (.alreadyExists name), s)
    | .ok false => register C faults s org name options
  | .alter name options =>
    match bindingExists faults s org name with
    | .error e => (.error e, s)
    | .ok false => (.error (.notFound name), s)
    | .ok true => register C faults s org name options
  | .drop name ifExists =>
    match faults.deleteBinding with
    | some e => (.error (backend e), s)
    | none =>
      let (s, removed) := s.deleteBinding org name
      if removed then (.ok (.dropped name), s)
      else if ifExists then (.ok .noOp, s)
      else (.error (.notFound name), s)

/-! ## What a statement stores -/

def given : CatalogDdl → Option (String × HashMap String)
  | .create name options _ _ | .alter name options => some (name, options)
  | .drop _ _ => none

/-- What is stored lets the statement go on. -/
def Admits (s : State) (org : String) : CatalogDdl → Prop
  | .create name _ orReplace ifNotExists =>
    (s.find .entries org name).isSome → ifNotExists = false ∧ orReplace = true
  | .alter name _ => (s.find .entries org name).isSome
  | .drop _ _ => False

/-- The statement gets as far as the write of the source config. -/
structure StoresBinding (s : State) (org : String) (ddl : CatalogDdl) (name : String) (cfg : Config)
    (provider : Provider) (serialized : Json) : Prop where
  listed : faults.listBindings = none
  admitted : Admits s org ddl
  given : ∃ options, given ddl = some (name, options) ∧ optionsToConfig C options = .ok cfg
  prepared : prepare C org name cfg = .ok (provider, serialized)
  written : faults.upsertBinding = none

/-- What the statement comes to from there. -/
def stored (s : State) (org name : String) (cfg : Config) (provider : Provider) (serialized : Json) :
    Except CatalogAdminError (Outcome Provider) × State :=
  let s := (s.upsertBinding org name (C.binding cfg)).1
  match faults.setSourceConfig with
  | some e => (.error (backend e), s)
  | none => (.ok (.registered name provider), (s.setSourceConfig org name serialized).1)

variable {C faults} {s : State} {org : String}

theorem register_cases (name options) :
    (∃ cfg provider serialized, optionsToConfig C options = .ok cfg ∧
      prepare C org name cfg = .ok (provider, serialized) ∧ faults.upsertBinding = none ∧
      register C faults s org name options = stored C faults s org name cfg provider serialized) ∨
    ∃ e, register C faults s org name options = (.error e, s) := by
  unfold register
  cases hoptions : optionsToConfig C options with
  | error e => exact .inr ⟨e, rfl⟩
  | ok cfg =>
    dsimp only
    unfold buildAndPersist
    cases hp : prepare C org name cfg with
    | error e => exact .inr ⟨e, rfl⟩
    | ok prepared =>
      cases hupsert : faults.upsertBinding with
      | some e => exact .inr ⟨backend e, rfl⟩
      | none =>
        refine .inl ⟨cfg, prepared.1, prepared.2, rfl, hp, rfl, ?_⟩
        unfold stored
        cases faults.setSourceConfig <;> rfl

theorem bindingExists_of_listed (hl : faults.listBindings = none) (name) :
    bindingExists faults s org name = .ok (s.find .entries org name).isSome := by
  simp only [bindingExists, hl]

variable {ddl : CatalogDdl} {name : String}

theorem apply_of_admits {options}
    (hl : faults.listBindings = none) (ha : Admits s org ddl) (hg : given ddl = some (name, options)) :
    apply C faults s org ddl = register C faults s org name options := by
  cases ddl with
  | create name' options' orReplace ifNotExists =>
    cases hg
    rw [apply, bindingExists_of_listed hl]
    cases hf : (s.find .entries org name).isSome with
    | false => rfl
    | true =>
      obtain ⟨rfl, rfl⟩ := ha hf
      rfl
  | alter name' options' =>
    cases hg
    have hf : (s.find .entries org name).isSome = true := ha
    rw [apply, bindingExists_of_listed hl, hf]
  | drop => cases hg

theorem apply_of_not_admits {options}
    (hg : given ddl = some (name, options)) (h : faults.listBindings = none → ¬ Admits s org ddl) :
    (∃ e, apply C faults s org ddl = (.error e, s)) ∨ apply C faults s org ddl = (.ok .noOp, s) := by
  cases hl : faults.listBindings with
  | some e =>
    cases ddl with
    | create | alter => exact .inl ⟨backend e, by simp only [apply, bindingExists, hl]⟩
    | drop => cases hg
  | none =>
    have ha := h hl
    cases ddl with
    | create name' options' orReplace ifNotExists =>
      cases hg
      obtain ⟨hfi, hf⟩ := Classical.not_imp.mp ha
      rw [apply, bindingExists_of_listed hl, hfi]
      cases ifNotExists with
      | true => exact .inr rfl
      | false =>
        cases orReplace with
        | true => exact absurd ⟨rfl, rfl⟩ hf
        | false => exact .inl ⟨.alreadyExists name, rfl⟩
    | alter name' options' =>
      cases hg
      have hfi : (s.find .entries org name).isSome = false := Bool.eq_false_of_not_eq_true ha
      rw [apply, bindingExists_of_listed hl, hfi]
      exact .inl ⟨.notFound name, rfl⟩
    | drop => cases hg

theorem apply_drop_cases (name ifExists) :
    (∃ e, apply C faults s org (.drop name ifExists) = (.error e, s)) ∨
    apply C faults s org (.drop name ifExists) = (.ok .noOp, s) ∨
    apply C faults s org (.drop name ifExists) = (.ok (.dropped name), (s.deleteBinding org name).1) := by
  cases hd : faults.deleteBinding with
  | some e => exact .inl ⟨backend e, by simp only [apply, hd]⟩
  | none =>
    cases hf : s.find .entries org name with
    | none =>
      have hg : s.deleteBinding org name = (s, false) := remove_of_find_none hf
      cases ifExists with
      | true => exact .inr (.inl (by simp only [apply, hd, hg, Bool.false_eq_true, if_false, if_true]))
      | false => exact .inl ⟨.notFound name, by simp only [apply, hd, hg, Bool.false_eq_true, if_false]⟩
    | some e =>
      have hg : (s.deleteBinding org name).2 = true := by
        rw [deleteBinding, remove_snd, hf]
        rfl
      exact .inr (.inr (by simp only [apply, hd, hg, if_true]))

/-- A statement stores a catalog, removes one, or leaves everything as it is. -/
theorem apply_cases (ddl) :
    (∃ name cfg provider serialized, StoresBinding C faults s org ddl name cfg provider serialized ∧
      apply C faults s org ddl = stored C faults s org name cfg provider serialized) ∨
    (∃ e, apply C faults s org ddl = (.error e, s)) ∨ apply C faults s org ddl = (.ok .noOp, s) ∨
    ∃ name, apply C faults s org ddl = (.ok (.dropped name), (s.deleteBinding org name).1) := by
  cases hg : given ddl with
  | none =>
    cases ddl with
    | create | alter => cases hg
    | drop name ifExists =>
      rcases apply_drop_cases name ifExists with herror | hn | hd
      · exact .inr (.inl herror)
      · exact .inr (.inr (.inl hn))
      · exact .inr (.inr (.inr ⟨name, hd⟩))
  | some target =>
    obtain ⟨name, options⟩ := target
    by_cases hgo : faults.listBindings = none ∧ Admits s org ddl
    · obtain ⟨hl, ha⟩ := hgo
      rw [apply_of_admits hl ha hg]
      rcases register_cases name options with ⟨cfg, provider, serialized, hc, hp, hw, heq⟩ | ⟨e, heq⟩
      · have hs : StoresBinding C faults s org ddl name cfg provider serialized :=
          ⟨hl, ha, ⟨options, hg, hc⟩, hp, hw⟩
        exact .inl ⟨name, cfg, provider, serialized, hs, heq⟩
      · exact .inr (.inl ⟨e, heq⟩)
    · rcases apply_of_not_admits hg (not_and.mp hgo) with herror | hn
      · exact .inr (.inl herror)
      · exact .inr (.inr (.inl hn))

theorem StoresBinding.apply_eq {cfg provider serialized}
    (h : StoresBinding C faults s org ddl name cfg provider serialized) :
    apply C faults s org ddl = stored C faults s org name cfg provider serialized := by
  obtain ⟨hl, ha, ⟨options, hg, hc⟩, hp, hw⟩ := h
  rw [apply_of_admits hl ha hg]
  simp only [register, hc, buildAndPersist, hp, hw, stored]
  cases faults.setSourceConfig <;> rfl

/-! ## What is left behind -/

/-- The same bindings and source configs, of every org. -/
def SameCatalogs (s' s : State) : Prop := ∀ org name, s'.find .entries org name = s.find .entries org name

/-- One catalog of the org has this entry, or none; everything else is the same. -/
def OnlyEntry (org name : String) (entry : Option EmbeddedMetaStore.Entry) (s' s : State) : Prop :=
  ∀ org' name', s'.find .entries org' name' = if org' = org ∧ name' = name then entry else s.find .entries org' name'

/-- An error changes nothing, a registered catalog has the binding and the config of the options, and a dropped
one has neither. -/
structure LeavesWhole (C : CatalogSources Config Provider) (s : State) (org : String) (ddl : CatalogDdl)
    (result : Except CatalogAdminError (Outcome Provider) × State) : Prop where
  error : ∀ e, result.1 = .error e → SameCatalogs result.2 s
  registered : ∀ name provider, result.1 = .ok (.registered name provider) →
    ∃ options cfg serialized, given ddl = some (name, options) ∧ optionsToConfig C options = .ok cfg ∧
      C.toValue cfg = .ok serialized ∧ OnlyEntry org name (some ⟨C.binding cfg, some serialized⟩) result.2 s
  dropped : ∀ name, result.1 = .ok (.dropped name) → OnlyEntry org name none result.2 s

theorem toValue_of_prepare {cfg provider serialized}
    (h : prepare C org name cfg = .ok (provider, serialized)) : C.toValue cfg = .ok serialized := by
  simp only [prepare, Except.bind_ok_iff, Except.mapError_ok_iff, Except.pure_ok_iff, Prod.mk.injEq] at h
  obtain ⟨_, -, _, -, value, hv, -, rfl⟩ := h
  exact hv

/-- The first write alone is as if nothing had been written, iff it writes the binding that is there. -/
theorem sameCatalogs_upsertBinding_iff {binding} : SameCatalogs (s.upsertBinding org name binding).1 s ↔
      (s.find .entries org name).map (·.binding) = some binding := by
  constructor
  · intro h
    rw [← h org name, find_upsertBinding, if_pos ⟨rfl, rfl⟩]
    rfl
  · intro h org' name'
    rw [find_upsertBinding]
    split_ifs with hk
    · obtain ⟨rfl, rfl⟩ := hk
      obtain ⟨e, he, rfl⟩ := Option.map_eq_some_iff.mp h
      rw [he]
      rfl
    · rfl

theorem onlyEntry_stored (name binding serialized) :
    OnlyEntry org name (some ⟨binding, some serialized⟩)
      ((s.upsertBinding org name binding).1.setSourceConfig org name serialized).1 s := by
  intro org' name'
  rw [find_setSourceConfig, find_upsertBinding, find_upsertBinding]
  split_ifs <;> simp_all

/-- A statement never leaves half of a catalog behind, iff the source config is written whenever it is tried, or
the binding was the new one before. -/
theorem catalog_ddl_leaves_whole_iff (C : CatalogSources Config Provider) (faults : CatalogStoreFaults) (s : State)
    (org : String) (ddl : CatalogDdl) :
    LeavesWhole C s org ddl (apply C faults s org ddl) ↔
      ∀ name cfg provider serialized, StoresBinding C faults s org ddl name cfg provider serialized →
        faults.setSourceConfig = none ∨ (s.find .entries org name).map (·.binding) = some (C.binding cfg) := by
  constructor
  · intro h name cfg provider serialized hs
    cases hf : faults.setSourceConfig with
    | none => exact .inl rfl
    | some e =>
      have heq : apply C faults s org ddl = (.error (backend e), (s.upsertBinding org name (C.binding cfg)).1) := by
        rw [hs.apply_eq, stored, hf]
      have hsa := h.error (backend e) (by rw [heq])
      rw [heq] at hsa
      exact .inr (sameCatalogs_upsertBinding_iff.mp hsa)
  · intro h
    rcases apply_cases ddl with ⟨name, cfg, provider, serialized, hs, heq⟩ | ⟨e, heq⟩ | heq | ⟨name, heq⟩
    · rw [heq, stored]
      cases hf : faults.setSourceConfig with
      | some e =>
        have hb := (h name cfg provider serialized hs).resolve_left (by rw [hf]; nofun)
        exact ⟨fun _ _ => sameCatalogs_upsertBinding_iff.mpr hb, nofun, nofun⟩
      | none =>
        refine ⟨nofun, fun name' provider' hok => ?_, nofun⟩
        cases hok
        obtain ⟨options, hg, hc⟩ := hs.given
        exact ⟨options, cfg, serialized, hg, hc, toValue_of_prepare hs.prepared,
          onlyEntry_stored name (C.binding cfg) serialized⟩
    · rw [heq]
      exact ⟨fun _ _ _ _ => rfl, nofun, nofun⟩
    · rw [heq]
      exact ⟨nofun, nofun, nofun⟩
    · rw [heq]
      refine ⟨nofun, nofun, fun name' hok => ?_⟩
      cases hok
      exact fun org' name' => find_remove ..

/-- The write of the source config fails. `CREATE` leaves a binding without a config behind, and `ALTER` the new
binding with the old config. -/
theorem failed_ddl_leaves_half :
    let endpoint (hint : String) : CatalogBinding := .liveConnector .postgres hint
    let C : CatalogSources String Unit :=
      ⟨fun text => .ok (.string text), fun _ => .ok "new", fun cfg => .ok (.string cfg), endpoint, fun _ cfg => .ok cfg,
        fun _ _ => .ok (), fun name => name⟩
    let faults : CatalogStoreFaults := ⟨none, none, some "connection closed", none⟩
    let options : HashMap String := AList.insert "kind" "postgres" ∅
    let s : State := (mk ∅).put .entries "acme" "pg" ⟨endpoint "old", some (.string "old")⟩
    let created := apply C faults (.mk ∅) "acme" (.create "pg" options false false)
    let altered := apply C faults s "acme" (.alter "pg" options)
    created.1 = .error (.backend "catalog store: connection closed") ∧
      created.2.find .entries "acme" "pg" = some ⟨endpoint "new", none⟩ ∧
      altered.1 = .error (.backend "catalog store: connection closed") ∧
      altered.2.find .entries "acme" "pg" = some ⟨endpoint "new", some (.string "old")⟩ := by
  intro endpoint C faults options s created altered
  exact ⟨rfl, rfl, rfl, rfl⟩

end StoreCatalogAdmin

end Dataglot
