/-
The user statements (`user_admin.rs`) of concurrent sessions over one store. A statement is
a few store calls with the calls of other sessions in between. `CREATE USER` looks for the
name in all orgs and writes it later, so two of them can both find it free. The exact
condition under which names stay unique is that no name that is free, or can become free, is
created in two orgs.
-/
import Dataglot.Library.Runs
import Dataglot.Server.GrantAdmin

namespace Dataglot
open Programs MetaStore UserAdmin Option

/-! ## The statements as programs -/

inductive UserOp
  | getUser (org name : String)
  | findUser (name : String)
  | putUser (org name : String) (hash : Option String) (isSuperuser : Bool)
  | deleteUser (org name : String)
  | listRoles (org : String)
  | putRole (org name : String)
  | deleteRole (org name : String)

def UserOp.Reply : UserOp → Type
  | getUser .. => Except StoreFailure (Option (UserRecord × Option String))
  | findUser .. => Except StoreFailure (Option (String × UserRecord × Option String))
  | putUser .. | putRole .. => Except StoreFailure Unit
  | deleteUser .. | deleteRole .. => Except StoreFailure Bool
  | listRoles .. => Except StoreFailure (List String)

/-- One store call. A call that fails changes nothing. -/
def MetaStore.exec (failure : Option StoreFailure) (st : MetaStore) : (op : UserOp) → op.Reply × MetaStore
  | .getUser org name => (failure.elim (.ok (st.getUser org name)) .error, st)
  | .findUser name => (failure.elim (.ok (st.findUser name)) .error, st)
  | .putUser org name hash isSuperuser =>
    match failure with
    | some e => (.error e, st)
    | none => (.ok (), st.putUser org name hash isSuperuser)
  | .deleteUser org name =>
    match failure with
    | some e => (.error e, st)
    | none => (.ok (st.deleteUser org name).2, (st.deleteUser org name).1)
  | .listRoles org => (failure.elim (.ok (st.listRoles org)) .error, st)
  | .putRole org name =>
    match failure with
    | some e => (.error e, st)
    | none => (.ok (), st.putRole org name)
  | .deleteRole org name =>
    match failure with
    | some e => (.error e, st)
    | none => (.ok (st.deleteRole org name).2, (st.deleteRole org name).1)

abbrev UserProgram := Prog UserOp UserOp.Reply

/-- Why a statement failed: it was refused, or the store failed. -/
inductive UserStatementError
  | refused (e : UserAdminError)
  | backend (reason : String)
  deriving DecidableEq, Repr

namespace UserAdmin

abbrev Result := Except UserStatementError UserOutcome

def backend (e : StoreFailure) : Result := .error (.backend s!"user store: {e}")

/-- A name that is there already. -/
def alreadyThere (name : String) (ifNotExists : Bool) : Result :=
  if ifNotExists then .ok .noOp else .error (.refused (.alreadyExists name))

def dropOutcome (name : String) (ifExists removed : Bool) : Result :=
  if removed then .ok (.dropped name)
  else if ifExists then .ok .noOp else .error (.refused (.notFound name))

variable (cipher : Option SecretCipher)

def protectPassword (nonce : String) (password : Option String) : Except UserAdminError (Option String) :=
  match password with
  | some pw => (protect cipher nonce pw).map some
  | none => .ok none

def getUser (org name : String) : UserProgram (Except StoreFailure (Option (UserRecord × Option String))) :=
  Prog.perform (UserOp.getUser org name)

def findUser (name : String) : UserProgram (Except StoreFailure (Option (String × UserRecord × Option String))) :=
  Prog.perform (UserOp.findUser name)

def putUser (org name : String) (hash : Option String) (isSuperuser : Bool) : UserProgram (Except StoreFailure Unit) :=
  Prog.perform (UserOp.putUser org name hash isSuperuser)

def deleteUser (org name : String) : UserProgram (Except StoreFailure Bool) :=
  Prog.perform (UserOp.deleteUser org name)

def createUserCall (nonce org name : String) (password : Option String)
    (superuser ifNotExists : Bool) : UserProgram Result := do
  match ← getUser org name with
  | .error e => return backend e
  | .ok (some _) => return alreadyThere name ifNotExists
  | .ok none =>
    match ← findUser name with
    | .error e => return backend e
    | .ok (some _) => return .error (.refused (.alreadyExists name))
    | .ok none =>
      match protectPassword cipher nonce password with
      | .error e => return .error (.refused e)
      | .ok hash =>
        match ← putUser org name hash superuser with
        | .error e => return backend e
        | .ok () => return .ok (.created name)

def dropUserCall (org name : String) (ifExists : Bool) : UserProgram Result := do
  match ← deleteUser org name with
  | .error e => return backend e
  | .ok removed => return dropOutcome name ifExists removed

end UserAdmin

/-! ## A statement on its own -/

section Alone

variable {cipher : Option SecretCipher} {nonce org name : String} {password : Option String} {superuser ifNotExists : Bool}
  {st : MetaStore}

variable {β : Type} {st' : MetaStore} {p : UserProgram β}

theorem goes_getUser {f : Except StoreFailure (Option (UserRecord × Option String)) → UserProgram β}
    {found} (hg : st.getUser org name = found) (hr : Goes exec st (f (.ok found)) st' p) :
    Goes exec st (getUser org name >>= f) st' p := by
  subst hg
  exact .ask none rfl hr

theorem goes_findUser {f : Except StoreFailure (Option (String × UserRecord × Option String)) → UserProgram β}
    {found} (hf : st.findUser name = found) (hr : Goes exec st (f (.ok found)) st' p) :
    Goes exec st (findUser name >>= f) st' p := by
  subst hf
  exact .ask none rfl hr

theorem goes_to_put {hash} (hf : ∀ o, st.getUser o name = none)
    (hp : protectPassword cipher nonce password = .ok hash) :
    ∃ next, Goes exec st (createUserCall cipher nonce org name password superuser ifNotExists) st
      (.ask (.putUser org name hash superuser) next) := by
  have hpu : ∃ next, (match protectPassword cipher nonce password with
      | .error e => return .error (.refused e)
      | .ok hash => do
        match ← putUser org name hash superuser with
        | .error e => return backend e
        | .ok () => return .ok (.created name) : UserProgram Result) =
      .ask (.putUser org name hash superuser) next := by
    rw [hp]
    exact ⟨_, rfl⟩
  obtain ⟨next, hn⟩ := hpu
  refine ⟨next, goes_getUser (hf org) (goes_findUser (findUser_eq_none.mpr hf) ?_)⟩
  rw [← hn]
  exact .refl

end Alone

/-! ## Sessions -/

/-- `CREATE USER` or `DROP USER`, with the org of its session; a password that is set takes a nonce. -/
inductive UserStatement
  | create (org nonce name : String) (password : Option String) (superuser ifNotExists : Bool)
  | drop (org name : String) (ifExists : Bool)

namespace UserStatement

def program (cipher : Option SecretCipher) : UserStatement → UserProgram UserAdmin.Result
  | create org nonce name password superuser ifNotExists =>
    UserAdmin.createUserCall cipher nonce org name password superuser ifNotExists
  | drop org name ifExists => UserAdmin.dropUserCall org name ifExists

/-- The org and the name of a user that the statement may create; it has to be able to protect the password. -/
def creates (cipher : Option SecretCipher) : UserStatement → Option (String × String)
  | create org _ name password _ _ => if password = none ∨ cipher.isSome then some (org, name) else none
  | drop .. => none

def drops : UserStatement → Option (String × String)
  | create .. => none
  | drop org name _ => some (org, name)

variable {cipher : Option SecretCipher} {q : UserStatement} {org name : String} {st : MetaStore}

theorem creates_create {nonce password superuser ifNotExists} :
    (create org nonce name password superuser ifNotExists).creates cipher = some (org, name) ↔
      ∃ hash, protectPassword cipher nonce password = .ok hash := by
  cases password with
  | none => exact ⟨fun _ => ⟨none, rfl⟩, fun _ => rfl⟩
  | some pw =>
    cases cipher with
    | none => exact ⟨nofun, nofun⟩
    | some C => exact ⟨fun _ => ⟨_, rfl⟩, fun _ => rfl⟩

theorem drops_of_creates (h : q.creates cipher = some (org, name)) : q.drops = none := by
  cases q with
  | create => rfl
  | drop => cases h

theorem goes_to_create (h : q.creates cipher = some (org, name)) (hf : ∀ o, st.getUser o name = none) :
    ∃ hash superuser next, Goes exec st (q.program cipher) st (.ask (.putUser org name hash superuser) next) := by
  cases q with
  | create o nonce u password superuser ifNotExists =>
    obtain ⟨rfl, rfl⟩ : o = org ∧ u = name := by
      dsimp only [creates] at h
      split_ifs at h
      exact Prod.mk.inj (some.inj h)
    obtain ⟨hash, hh⟩ := creates_create.mp h
    obtain ⟨next, hg⟩ := goes_to_put hf hh
    exact ⟨hash, superuser, next, hg⟩
  | drop => cases h

end UserStatement

abbrev UserSessions (ι : Type) : Type := Pool ι MetaStore UserOp UserOp.Reply UserAdmin.Result

namespace UserSessions

variable {ι : Type} {cipher : Option SecretCipher} {statements : ι → UserStatement} {store : MetaStore}

def initial (cipher : Option SecretCipher) (statements : ι → UserStatement) (store : MetaStore) : UserSessions ι :=
  ⟨store, fun i => some ((statements i).program cipher)⟩

abbrev exec (ι : Type) : ι → Option StoreFailure → MetaStore → (op : UserOp) → op.Reply × MetaStore :=
  fun _ => MetaStore.exec

def Creates (cipher : Option SecretCipher) (statements : ι → UserStatement) (org name : String) : Prop :=
  ∃ i, (statements i).creates cipher = some (org, name)

def Drops (statements : ι → UserStatement) (org name : String) : Prop :=
  ∃ i, (statements i).drops = some (org, name)

/-! ### Two orgs find the name free -/

section Race

variable [DecidableEq ι] {s : UserSessions ι} {name : String}

/-- Two statements look for the name before either of them writes it. -/
theorem reaches_twice {a b} (hab : a ≠ b) (ha : Creates cipher statements a name)
    (hb : Creates cipher statements b name) (hf : ∀ o, s.shared.getUser o name = none)
    (hp : ∀ i, (statements i).drops = none → s.procs i = some ((statements i).program cipher)) :
    ∃ s', Pool.Reaches (exec ι) s s' ∧ ¬ s'.shared.Unique := by
  obtain ⟨i, hi⟩ := ha
  obtain ⟨j, hj⟩ := hb
  have hij : i ≠ j := by
    rintro rfl
    cases hi.symm.trans hj
    exact hab rfl
  obtain ⟨hash, superuser, next, hg⟩ := UserStatement.goes_to_create hi hf
  obtain ⟨hash', superuser', next', hg'⟩ := UserStatement.goes_to_create hj hf
  refine ⟨_, Pool.reaches_overtaken hij (hp i (UserStatement.drops_of_creates hi))
    (hp j (UserStatement.drops_of_creates hj)) hg (hg'.trans (.ask none rfl .refl)) none, fun hu => ?_⟩
  refine hab (hu a b name ?_ ?_)
  · exact (congrArg isSome (getUser_putUser ..)).trans (by rw [if_pos ⟨rfl, rfl⟩]; rfl)
  · refine (congrArg isSome (getUser_putUser ..)).trans ?_
    rw [if_neg fun h => hab h.1.symm, getUser_putUser, if_pos ⟨rfl, rfl⟩]
    rfl

theorem reaches_freed {o} (hu : store.Unique) (ho : (store.getUser o name).isSome)
    (hd : Drops statements o name) :
    ∃ s, Pool.Reaches (exec ι) (initial cipher statements store) s ∧ (∀ o, s.shared.getUser o name = none) ∧
      ∀ i, (statements i).drops = none → s.procs i = some ((statements i).program cipher) := by
  obtain ⟨k, hk⟩ := hd
  have hg : ∃ p, Goes MetaStore.exec store ((statements k).program cipher) (store.deleteUser o name).1 p := by
    revert hk
    cases statements k with
    | create => exact nofun
    | drop org name ifExists =>
      rintro ⟨⟩
      exact ⟨_, .ask none rfl .refl⟩
  obtain ⟨p, hg⟩ := hg
  refine ⟨_, Pool.reaches_of_goes hg rfl, fun o' => ?_, fun i hi => ?_⟩
  · dsimp only
    rw [MetaStore.getUser_deleteUser]
    split_ifs with h
    · rfl
    · by_contra hs
      exact h ⟨hu o' o name (isSome_iff_ne_none.mpr hs) ho, rfl⟩
  · refine Function.update_of_ne ?_ _ _
    rintro rfl
    cases hi.symm.trans hk

end Race

/-! ### One org for each name that can be free -/

section Names

variable {creates drops : String → String → Prop} {st st' : MetaStore} {org name : String}

/-- Users go only where they are dropped, come only where they are created, and keep their names apart. -/
structure Within (creates drops : String → String → Prop) (st st' : MetaStore) : Prop where
  stays : ∀ o u, ¬ drops o u → (st.getUser o u).isSome → (st'.getUser o u).isSome
  absent : ∀ o u, ¬ creates o u → st.getUser o u = none → st'.getUser o u = none
  unique : st.Unique → st'.Unique

def names (creates drops : String → String → Prop) : Terms MetaStore UserOp UserOp.Reply where
  rely := Within creates drops
  guar st _ _ st' := Within creates drops st st'
  refl _ := ⟨fun _ _ _ => id, fun _ _ _ => id, id⟩
  trans h h' := ⟨fun o u hdrop => h'.stays o u hdrop ∘ h.stays o u hdrop,
    fun o u hcreate => h'.absent o u hcreate ∘ h.absent o u hcreate, h'.unique ∘ h.unique⟩

theorem within_refl : Within creates drops st st := (names creates drops).refl st

theorem within_putUser {hash superuser} (hc : creates org name)
    (hot : ∀ o, o ≠ org → st.getUser o name = none) :
    Within creates drops st (st.putUser org name hash superuser) := by
  have hp := st.getUser_putUser org name hash superuser
  refine ⟨fun o u _ h => ?_, fun o u hcr h => ?_, UserEffect.unique (.put org name _ ?_ hp)⟩
  · rw [hp]
    split_ifs
    · rfl
    · exact h
  · rw [hp, if_neg, h]
    rintro ⟨rfl, rfl⟩
    exact hcr hc
  · refine or_iff_not_imp_left.mpr fun hn o => ?_
    by_cases ho : o = org
    · rw [ho]
      exact not_isSome_iff_eq_none.mp hn
    · exact hot o ho

theorem within_deleteUser (hdr : drops org name) : Within creates drops st (st.deleteUser org name).1 := by
  have hd := st.getUser_deleteUser org name
  refine ⟨fun o u hdp h => ?_, fun o u _ h => ?_, UserEffect.unique (.drop org name hd)⟩
  · rw [hd, if_neg]
    · exact h
    · rintro ⟨rfl, rfl⟩
      exact hdp hdr
  · rw [hd, h, ite_self]

theorem wp_drop (hd : drops org name) (ifExists) :
    wp MetaStore.exec (names creates drops) (UserAdmin.dropUserCall org name ifExists) (fun _ _ => True) st := by
  intro st _ failure
  cases failure with
  | some e => exact ⟨within_refl, trivial⟩
  | none => exact ⟨within_deleteUser hd, trivial⟩

theorem wp_create {nonce password superuser ifNotExists}
    (hc : ∀ hash, UserAdmin.protectPassword cipher nonce password = .ok hash → creates org name)
    (hsa : ∀ o, creates o name → creates org name → (∀ o, (store.getUser o name).isSome → drops o name) → o = org)
    (hst : Within creates drops store st) : wp MetaStore.exec (names creates drops)
      (UserAdmin.createUserCall cipher nonce org name password superuser ifNotExists) (fun _ _ => True) st := by
  have hs : (names creates drops).Stable (Within creates drops store) := fun _ _ h hst =>
    (names creates drops).trans hst h
  refine wp_ask hs hst fun st failure hst => ?_
  cases failure with
  | some e => exact ⟨within_refl, trivial⟩
  | none =>
  refine ⟨within_refl, ?_⟩
  dsimp only [MetaStore.exec]
  cases st.getUser org name with
  | some _ => exact trivial
  | none =>
  refine wp_ask hs hst fun st failure hst => ?_
  cases failure with
  | some e => exact ⟨within_refl, trivial⟩
  | none =>
  refine ⟨within_refl, ?_⟩
  dsimp only [MetaStore.exec]
  cases hfi : st.findUser name with
  | some _ => exact trivial
  | none =>
  have hfr := findUser_eq_none.mp hfi
  cases hp : protectPassword cipher nonce password with
  | error e => exact trivial
  | ok hash =>
  have hc := hc hash hp
  -- a user that nobody drops would still be there
  have hf : ∀ o, (store.getUser o name).isSome → drops o name := by
    intro o ho
    by_contra hd
    have hss := hst.stays o name hd ho
    rw [hfr o] at hss
    cases hss
  have hot : (names creates drops).Stable fun st => ∀ o, o ≠ org → st.getUser o name = none :=
    fun _ _ h hn o ho => h.absent o name (fun hor => ho (hsa o hor hc hf)) (hn o ho)
  refine wp_ask hot (fun o _ => hfr o) fun st failure hn => ?_
  cases failure with
  | some e => exact ⟨within_refl, trivial⟩
  | none => exact ⟨within_putUser hc hn, trivial⟩

end Names

theorem sound_of_reaches [DecidableEq ι] {s : UserSessions ι}
    (hs : ∀ a b name, Creates cipher statements a name → Creates cipher statements b name →
      (∀ o, (store.getUser o name).isSome → Drops statements o name) → a = b)
    (hr : Pool.Reaches (exec ι) (initial cipher statements store) s) :
    Within (Creates cipher statements) (Drops statements) store s.shared ∧
    Pool.Sound (exec ι) (fun _ => names (Creates cipher statements) (Drops statements)) (fun _ _ _ => True) s := by
  induction hr with
  | refl =>
    refine ⟨within_refl, ?_⟩
    rintro i p ⟨⟩
    show wp _ _ ((statements i).program cipher) _ store
    cases hi : statements i with
    | create org nonce name password superuser ifNotExists =>
      refine wp_create (fun hash hh => ⟨i, ?_⟩) (fun o ho hor hf => hs o org name ho hor hf) within_refl
      rw [hi]
      exact UserStatement.creates_create.mpr ⟨hash, hh⟩
    | drop org name ifExists => exact wp_drop ⟨i, by rw [hi]; rfl⟩ ifExists
  | tail _ hru ih =>
    obtain ⟨i, failure, hru⟩ := hru
    refine ⟨?_, ih.2.run (fun _ _ _ _ _ _ => trivial) (fun _ _ _ _ _ _ _ h => h) hru⟩
    obtain ⟨op, next, ha, rfl⟩ := Pool.run_eq_some.mp hru
    exact (names _ _).trans ih.1 (ih.2.guar ha failure)

/-- Usernames stay unique in every schedule, whichever store calls fail, if and only if they are unique at the start and
no name that is free, or is dropped by the org that has it, is created in two orgs. -/
theorem usernames_unique_iff [DecidableEq ι] (cipher : Option SecretCipher) (statements : ι → UserStatement)
    (store : MetaStore) :
    (∀ s, Pool.Reaches (exec ι) (initial cipher statements store) s → s.shared.Unique) ↔
    store.Unique ∧ ∀ a b name, Creates cipher statements a name → Creates cipher statements b name →
      (∀ o, (store.getUser o name).isSome → Drops statements o name) → a = b := by
  constructor
  · intro hu
    have hs : store.Unique := hu _ .refl
    refine ⟨hs, fun a b name ha hb hf => ?_⟩
    by_contra hab
    obtain ⟨s, hr, hfr, hp⟩ : ∃ s, Pool.Reaches (exec ι) (initial cipher statements store) s ∧
        (∀ o, s.shared.getUser o name = none) ∧
        ∀ i, (statements i).drops = none → s.procs i = some ((statements i).program cipher) := by
      by_cases hh : ∃ o, (store.getUser o name).isSome
      · obtain ⟨o, ho⟩ := hh
        exact reaches_freed hs ho (hf o ho)
      · refine ⟨_, .refl, fun o => ?_, fun _ _ => rfl⟩
        exact Option.not_isSome_iff_eq_none.mp fun ho => hh ⟨o, ho⟩
    obtain ⟨s', hr', hn⟩ := reaches_twice hab ha hb hfr hp
    exact hn (hu s' (hr.trans hr'))
  · rintro ⟨hs, hsa⟩ s hr
    exact (sound_of_reaches hsa hr).1.unique hs

/-- Two orgs create a user of the same name. -/
def createTwice (first : Bool) : UserStatement :=
  if first then .create "acme" "" "alice" none false false else .create "beta" "" "alice" none true false

/-- One of them looks for the name, the other one runs to its end, the first writes. -/
def lookThenWrite : List Bool := [true, true, false, false, false, true]

/-- Both succeed, and a login as `alice` gets the org and the flag of the first org by name. -/
theorem username_in_two_orgs : ∃ s,
    Runs.run (fun s i => Pool.run (exec Bool) i none s) (initial none createTwice .empty) lookThenWrite = some s ∧
    s.result true = some (.ok (.created "alice")) ∧ s.result false = some (.ok (.created "alice")) ∧
    s.shared.findUser "alice" = some ("acme", ⟨"alice", false⟩, none) ∧ ¬ s.shared.Unique := by
  have hr : (Runs.run (fun s i => Pool.run (exec Bool) i none s) (initial none createTwice .empty) lookThenWrite).map
      (fun s => decide ((s.result true = some (.ok (.created "alice")) ∧ s.result false = some (.ok (.created "alice"))) ∧
        s.shared.findUser "alice" = some ("acme", ⟨"alice", false⟩, none) ∧
        (s.shared.getUser "acme" "alice").isSome ∧ (s.shared.getUser "beta" "alice").isSome)) = some true := by
    decide +kernel
  obtain ⟨s, hs, he⟩ := Option.map_eq_some_iff.mp hr
  obtain ⟨⟨ha, hb⟩, hf, hi, hin⟩ := of_decide_eq_true he
  refine ⟨s, hs, ha, hb, hf, fun hu => ?_⟩
  exact absurd (hu "acme" "beta" "alice" hi hin) (by decide)

end UserSessions

end Dataglot
