/-
Mutations of one redb store in any interleaving of their transactions.

A mutation touches one cell of the tables. All but two are one transaction that writes what
it writes whatever is there. `upsert_binding` and `set_source_config` read the document of an
entry, and write the changed document in a transaction of its own; what another mutation has
done to the entry in between is overwritten. As long as no mutation changes a cell while
another is between its two transactions there, each takes effect at its last transaction.
-/
import Dataglot.Catalog.RedbStore

namespace Dataglot

open EmbeddedMetaStore (Mutation)
open TableFamily Programs

namespace RedbMetaStore

/-! ## One mutation -/

/-- A mutation that reads the entry of a catalog first. -/
inductive EntryOp
  | upsert (binding : CatalogBinding)
  | config (sourceConfig : Json)

namespace EntryOp

def mutation (key : String × String) : EntryOp → Mutation
  | upsert binding => .upsertBinding key.1 key.2 binding
  | config sourceConfig => .setSourceConfig key.1 key.2 sourceConfig

/-- What is written after the document has been read, if anything is. -/
def plan : EntryOp → Option EntryDocument → Option EntryDocument
  | upsert binding, none => some ⟨binding, .null⟩
  | upsert binding, some doc => if withinLimit doc.sourceConfig then some ⟨binding, doc.sourceConfig⟩ else none
  | config _, none => none
  | config sourceConfig, some doc =>
    if withinLimit doc.sourceConfig then some ⟨doc.binding, sourceConfig⟩ else none

end EntryOp

abbrev entryCell (key : String × String) : Cell := cell .entries key.1 key.2

/-- The one cell that a mutation is about. -/
def touched : Mutation → Cell
  | .upsertBinding org name _ | .setSourceConfig org name _ | .deleteBinding org name => cell .entries org name
  | .putSecret org name _ | .deleteSecret org name => cell .secrets org name
  | .putUser org name _ _ | .deleteUser org name => cell .users org name
  | .putRole org name | .deleteRole org name => cell .roles org name
  | .putPolicy org name _ _ | .deletePolicy org name => cell .policies org name
  | .putGrant org grant | .deleteGrant org grant => cell .grants org (grantKey grant)
  | .putDerivedProduct org product => cell .products org product.name
  | .deleteDerivedProduct org name => cell .products org name
  | .addRoleMember org role user | .removeRoleMember org role user => cell .roleMembers org (toLex (role, user))

def program (m : Mutation) : Op Unit := do
  let _ ← mutate m
  return ()

/-- What a mutation does to the tables when no other comes in between. -/
def effect (db : Tables) (m : Mutation) : Tables := ((program m).alone Tables.exec db).2

def serial (db : Tables) (ms : List Mutation) : Tables := ms.foldl effect db

/-- The second transaction, if there is something to write. -/
def writeBack (key : String × String) : Option EntryDocument → Op Unit
  | some doc => .ask (.insert (entryCell key) doc) fun _ => .done ()
  | none => .done ()

/-- A mutation reads an entry first, or is one transaction that writes the same whatever is there. -/
theorem reads_or_blind (m) : (∃ key o, m = EntryOp.mutation key o) ∨
    ∃ x v, program m = .ask x (fun _ => .done ()) ∧ ∀ db : Tables, (db.exec x).2 = db.set (touched m) v := by
  cases m with
  | upsertBinding org name binding => exact .inl ⟨(org, name), .upsert binding, rfl⟩
  | setSourceConfig org name sourceConfig => exact .inl ⟨(org, name), .config sourceConfig, rfl⟩
  | _ => exact .inr ⟨_, _, rfl, fun _ => rfl⟩

theorem touched_mutation (key) (o : EntryOp) : touched (o.mutation key) = entryCell key := by
  cases o <;> rfl

theorem program_mutation (key) (o : EntryOp) :
    program (o.mutation key) = .ask (.get (entryCell key)) fun found => writeBack key (o.plan found) := by
  cases o with
  | upsert binding =>
    dsimp only [program, EntryOp.mutation, mutate]
    rw [upsertBinding_eq, Prog.ask_bind]
    congr 1
    funext found
    cases found with
    | none => rfl
    | some doc =>
      dsimp only [EntryOp.plan]
      split_ifs <;> rfl
  | config sourceConfig =>
    dsimp only [program, EntryOp.mutation, mutate]
    rw [setSourceConfig_eq, Prog.ask_bind]
    congr 1
    funext found
    cases found with
    | none => rfl
    | some doc =>
      dsimp only [EntryOp.plan]
      split_ifs <;> rfl

section Effect

variable {m : Mutation} {db : Tables} {key : String × String} {o : EntryOp}

theorem effect_mutation_of_none (h : o.plan (db.get (entryCell key)) = none) : effect db (o.mutation key) = db := by
  rw [effect, program_mutation, Prog.alone_ask]
  dsimp only [Tables.exec]
  rw [h]
  rfl

theorem effect_mutation_of_some {doc} (h : o.plan (db.get (entryCell key)) = some doc) :
    effect db (o.mutation key) = db.set (entryCell key) (some doc) := by
  rw [effect, program_mutation, Prog.alone_ask]
  dsimp only [Tables.exec]
  rw [h]
  rfl

theorem get_effect_mutation (key) (o : EntryOp) {doc}
    (h : o.plan (db.get (entryCell key)) = some doc) :
    (effect db (o.mutation key)).get (entryCell key) = some doc := by
  rw [effect_mutation_of_some h, Tables.get_set_self]

theorem get_effect_of_ne {c} (h : c ≠ touched m) : (effect db m).get c = db.get c := by
  obtain ⟨key, o, rfl⟩ | ⟨x, v, hp, he⟩ := reads_or_blind m
  · rw [touched_mutation] at h
    cases hplan : o.plan (db.get (entryCell key)) with
    | none => rw [effect_mutation_of_none hplan]
    | some doc => rw [effect_mutation_of_some hplan, Tables.get_set_of_ne h]
  · rw [effect, hp, Prog.alone_ask, Prog.alone_done]
    dsimp only
    rw [he, Tables.get_set_of_ne h]

end Effect

/-! ## Where a mutation is -/

/-- What is left of a mutation; one that is about to write would write the same if it read the entry now. -/
inductive At (m : Mutation) (db : Tables) : Op Unit → Prop
  | ready : At m db (program m)
  | midway {key : String × String} {o : EntryOp} {doc : EntryDocument} (hm : m = o.mutation key)
      (hplan : o.plan (db.get (entryCell key)) = some doc) : At m db (writeBack key (some doc))
  | finished : At m db (.done ())

/-- A transaction reads and leaves the tables as they are, or it is the last one, and does what the whole mutation
would do. -/
theorem At.ask {m db x} {next : x.Reply → Op Unit} (h : At m db (.ask x next)) :
    (db.exec x).2 = db ∧ At m db (next (db.exec x).1) ∧ (∀ a, next (db.exec x).1 ≠ .done a) ∨
      (db.exec x).2 = effect db m ∧ next (db.exec x).1 = .done () := by
  generalize hq : Prog.ask x next = q at h
  cases h with
  | finished => cases hq
  | midway hm hplan =>
    cases hq
    rw [hm, effect_mutation_of_some hplan]
    exact .inr ⟨rfl, rfl⟩
  | ready =>
    obtain ⟨key, o, rfl⟩ | ⟨x', v, hp, hexec⟩ := reads_or_blind m
    · rw [program_mutation] at hq
      cases hq
      dsimp only [Tables.exec]
      cases hplan : o.plan (db.get (entryCell key)) with
      | none => exact .inr ⟨(effect_mutation_of_none hplan).symm, rfl⟩
      | some doc => exact .inl ⟨rfl, .midway rfl hplan, nofun⟩
    · rw [effect, hp]
      rw [hp] at hq
      cases hq
      exact .inr ⟨rfl, rfl⟩

/-! ## Many mutations -/

variable {ι : Type} {start : Tables} {ops : ι → Mutation}

abbrev Mutations (ι : Type) := Pool ι Tables Txn Txn.Reply Unit

/-- Each transaction sees what has been committed. -/
def exec (_ : ι) (_ : Unit) : Tables → (x : Txn) → x.Reply × Tables := Tables.exec

def pool (start : Tables) (ops : ι → Mutation) : Mutations ι := ⟨start, fun i => some (program (ops i))⟩

/-- A mutation is between its two transactions. -/
def Midway (ops : ι → Mutation) (p : Mutations ι) (i : ι) : Prop :=
  p.procs i ≠ some (program (ops i)) ∧ p.result i = none

/-- The next transaction of a mutation changes a cell that another one has read and is about to write. -/
def Interferes (ops : ι → Mutation) (p p' : Mutations ι) (i : ι) : Prop :=
  p'.shared ≠ p.shared ∧ ∃ j, j ≠ i ∧ touched (ops j) = touched (ops i) ∧ Midway ops p j

/-- The tables are what the completed mutations leave in the order in which they have completed. -/
structure Inv (start : Tables) (ops : ι → Mutation) (order : List ι) (p : Mutations ι) : Prop where
  nodup : order.Nodup
  mem : ∀ i, i ∈ order ↔ p.procs i = some (.done ())
  tables : serial start (order.map ops) = p.shared
  procs : ∀ i, ∃ q, p.procs i = some q ∧ At (ops i) p.shared q

theorem inv_pool (start) (ops : ι → Mutation) : Inv start ops [] (pool start ops) := by
  refine ⟨.nil, fun i => ?_, rfl, fun i => ⟨_, rfl, .ready⟩⟩
  obtain ⟨key, o, hm⟩ | ⟨x, v, hp, -⟩ := reads_or_blind (ops i)
  · simp [pool, hm, program_mutation]
  · simp [pool, hp]

theorem At.other {p p' : Mutations ι} {i j q} (hne : j ≠ i) (h : At (ops j) p.shared q)
    (hq : p.procs j = some q) (ha : p'.shared = p.shared ∨ p'.shared = effect p.shared (ops i))
    (hf : ¬ Interferes ops p p' i) : At (ops j) p'.shared q := by
  by_cases hs : p'.shared = p.shared
  · rwa [hs]
  · cases h with
    | ready => exact .ready
    | finished => exact .finished
    | midway hm hplan =>
      have hmi : Midway ops p j := by
        constructor
        · rw [hq, hm, program_mutation]
          nofun
        · rw [Pool.result, hq]
          rfl
      have hc : touched (ops j) ≠ touched (ops i) := fun hc => hf ⟨hs, j, hne, hc, hmi⟩
      rw [hm, touched_mutation] at hc
      refine .midway hm ?_
      rw [ha.resolve_left hs, get_effect_of_ne hc, hplan]

variable [DecidableEq ι]

/-- Some schedule leads there in which no mutation interferes with another. -/
def ReachedApart (start : Tables) (ops : ι → Mutation) : Mutations ι → Prop :=
  Relation.ReflTransGen (fun p p' => ∃ i, Pool.run exec i () p = some p' ∧ ¬ Interferes ops p p' i) (pool start ops)

theorem Inv.run {order} {p p' : Mutations ι} {i} (h : Inv start ops order p)
    (hr : Pool.run exec i () p = some p') (hf : ¬ Interferes ops p p' i) : ∃ order, Inv start ops order p' := by
  obtain ⟨x, next, hi, hp'⟩ := Pool.run_eq_some.mp hr
  have hs : p'.shared = (p.shared.exec x).2 := by rw [hp']; rfl
  have hse : p'.procs i = some (next (p.shared.exec x).1) := by rw [hp']; exact Function.update_self ..
  have ho : ∀ j, j ≠ i → p'.procs j = p.procs j := by
    intro j hne
    rw [hp']
    exact Function.update_of_ne hne ..
  have hn : i ∉ order := by simp [h.mem, hi]
  have hp : (p'.shared = p.shared ∨ p'.shared = effect p.shared (ops i)) →
      At (ops i) p'.shared (next (p.shared.exec x).1) → ∀ j, ∃ q, p'.procs j = some q ∧ At (ops j) p'.shared q := by
    intro ha hat j
    by_cases hne : j = i
    · subst hne
      exact ⟨_, hse, hat⟩
    · obtain ⟨q, hq, hj⟩ := h.procs j
      exact ⟨q, (ho j hne).trans hq, hj.other hne hq ha hf⟩
  obtain ⟨q, hq, hat⟩ := h.procs i
  obtain rfl : .ask x next = q := Option.some.inj (hi.symm.trans hq)
  obtain ⟨ht, hat, hm⟩ | ⟨ht, hd⟩ := hat.ask
  · rw [ht] at hs
    refine ⟨order, h.nodup, fun j => ?_, h.tables.trans hs.symm, hp (.inl hs) (hs ▸ hat)⟩
    by_cases hne : j = i
    · subst hne
      simp [hn, hse, hm]
    · rw [ho j hne, h.mem]
  · rw [ht] at hs
    refine ⟨order ++ [i], ?_, fun j => ?_, ?_, hp (.inr hs) (hd ▸ .finished)⟩
    · exact h.nodup.append (List.nodup_singleton i) (by simpa using hn)
    · by_cases hne : j = i
      · subst hne
        simp [hse, hd]
      · simp [ho j hne, ← h.mem, hne]
    · simp [serial, hs, ← h.tables]

/-- Whatever the schedule: if nobody changes a cell while another mutation is between its two transactions there, then
the tables are at every moment what the completed mutations leave, one after the other. -/
theorem serializable_of_apart {p : Mutations ι} (h : ReachedApart start ops p) :
    ∃ order : List ι, order.Nodup ∧ (∀ i, i ∈ order ↔ (p.result i).isSome = true) ∧
      serial start (order.map ops) = p.shared := by
  have hin : ∃ order, Inv start ops order p := by
    induction h with
    | refl => exact ⟨[], inv_pool start ops⟩
    | tail _ hstep ih =>
      obtain ⟨i, hr, hf⟩ := hstep
      obtain ⟨order, ho⟩ := ih
      exact ho.run hr hf
  obtain ⟨order, h⟩ := hin
  refine ⟨order, h.nodup, fun i => ?_, h.tables⟩
  rw [h.mem, Option.isSome_iff_exists]
  exact ⟨fun hi => ⟨(), Pool.result_eq_some.mpr hi⟩, fun ⟨_, ha⟩ => Pool.result_eq_some.mp ha⟩

/-- A catalog is bound, and a secret of the same org is put between the two transactions. -/
theorem serializable_apart_run :
    let ops (b : Bool) : Mutation :=
      cond b (.upsertBinding "acme" "sales" (.liveConnector .postgres "pg")) (.putSecret "acme" "pw" [1])
    ∃ p, ReachedApart Tables.empty ops p ∧ (∀ b, (p.result b).isSome = true) ∧
      ∃ order : List Bool, order.Nodup ∧ (∀ i, i ∈ order ↔ (p.result i).isSome = true) ∧
        serial Tables.empty (order.map ops) = p.shared := by
  intro ops
  have hre : ReachedApart Tables.empty ops _ := .tail .refl ⟨true, rfl, fun h => h.1 rfl⟩
  have hs : ReachedApart Tables.empty ops _ := hre.tail ⟨false, rfl, ?apart⟩
  case apart =>
    rintro ⟨-, j, hne, hc, -⟩
    cases j with
    | false => exact hne rfl
    | true => cases hc
  have hw : ReachedApart Tables.empty ops _ := hs.tail ⟨true, rfl, ?alone⟩
  case alone =>
    rintro ⟨-, j, hne, -, -, hr⟩
    cases j with
    | false => cases hr
    | true => exact hne rfl
  exact ⟨_, hw, fun b => by cases b <;> rfl, serializable_of_apart hw⟩

/-- A catalog is bound anew while its source config is set. Both calls return, and the source config is gone, which
neither order of the two gives. -/
theorem source_config_lost :
    let sales : String × String := ("acme", "sales")
    let start : Tables := Tables.empty.set (entryCell sales) (some ⟨.liveConnector .postgres "old", .null⟩)
    let ops (b : Bool) : Mutation :=
      cond b (.upsertBinding "acme" "sales" (.liveConnector .postgres "new"))
        (.setSourceConfig "acme" "sales" (.string "config"))
    ∃ p, Pool.Reaches exec (pool start ops) p ∧ (∀ b, (p.result b).isSome = true) ∧
      p.shared.get (entryCell sales) = some ⟨.liveConnector .postgres "new", .null⟩ ∧
      (serial start [ops true, ops false]).get (entryCell sales) =
        some ⟨.liveConnector .postgres "new", .string "config"⟩ ∧
      (serial start [ops false, ops true]).get (entryCell sales) =
        some ⟨.liveConnector .postgres "new", .string "config"⟩ := by
  intro sales start ops
  have hsl : Goes (exec true) start (program (ops true)) start
      (writeBack sales (some ⟨.liveConnector .postgres "new", .null⟩)) := .step () .refl
  have hf : Goes (exec false) start (program (ops false)) _ _ := goes_alone Tables.exec (program (ops false)) start
  have hr := Pool.reaches_overtaken (s := pool start ops) Bool.noConfusion rfl rfl hsl hf ()
  have hs : start.get (entryCell sales) = some _ := Tables.get_set_self _
  have hb : (effect start (ops true)).get (entryCell sales) = some ⟨.liveConnector .postgres "new", .null⟩ :=
    get_effect_mutation sales (.upsert _) (congrArg _ hs)
  have hse : (effect start (ops false)).get (entryCell sales) =
      some ⟨.liveConnector .postgres "old", .string "config"⟩ :=
    get_effect_mutation sales (.config _) (congrArg _ hs)
  refine ⟨_, hr, fun b => ?_, Tables.get_set_self _, ?_, ?_⟩
  · cases b <;> rfl
  · exact get_effect_mutation sales (.config _) (congrArg _ hb)
  · exact get_effect_mutation sales (.upsert _) (congrArg _ hse)

end RedbMetaStore

end Dataglot
