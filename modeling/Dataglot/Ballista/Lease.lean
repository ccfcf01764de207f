/-
The scheduler lease (`ha.rs`): one object of an object store with conditional writes. Its
payload names the holder and when the lease expires.

A call asks for one operation of the store, or one reading of the clock, after the other.
The store also keeps a history that no call can see: who wrote each ETag, the last payload
each holder wrote, and for each call what it read of the lease and the clock reading after
that.
-/
import Dataglot.Library.Programs

namespace ObjectStore

/-- ETags are numbered as they are given out. -/
abbrev ETag := Nat

inductive OsError
  | alreadyExists (message : String)
  | precondition (message : String)
  | generic (message : String)

def OsError.message : OsError → String
  | alreadyExists message | precondition message | generic message => message

inductive PutMode
  | create
  | update (etag : ETag)
  deriving DecidableEq

inductive Fault
  | unreachable (message : String)
  /-- it takes effect, and the reply is lost -/
  | replyLost (message : String)
  /-- the backend does not return ETags -/
  | noETag

end ObjectStore

namespace Dataglot
open ObjectStore
open Programs

/-- Times are in milliseconds. -/
structure LeasePayload (H : Type) where
  holderId : H
  expiresAt : Nat
  deriving DecidableEq

inductive ClaimOutcome (H : Type)
  | acquired (etag : ETag) (payload : LeasePayload H)
  | heldByOther (payload : LeasePayload H)

inductive LeaseError
  | leadershipLost
  | backend (message : String)
  | malformed (path source : String)

structure ObjectStoreLease (H : Type) where
  path : String
  holderId : H
  leaseDuration : Nat

/-! ## The store -/

/-- What a call has read of the lease, and the reading of the clock that followed. -/
structure Look (H : Type) where
  payload : LeasePayload H
  etag : ETag
  clock : Option Nat

structure LeaseStore (H κ : Type) where
  /-- what the lease object holds, or why that cannot be read, and its ETag -/
  object : Option (Except String (LeasePayload H) × ETag)
  nextETag : ETag
  clock : Nat
  /-- the payload a holder wrote last -/
  last : H → Option (LeasePayload H)
  writer : ETag → Option H
  looks : κ → Option (Look H)

inductive LeaseOp (H : Type)
  /-- `Utc::now()` -/
  | now
  | put (mode : PutMode) (payload : LeasePayload H)
  | get

@[reducible] def LeaseOp.Reply {H : Type} : LeaseOp H → Type
  | now => Nat
  | put _ _ => Except OsError (Option ETag)
  | get => Except OsError (Except String (LeasePayload H) × Option ETag)

namespace LeaseStore

variable {H κ : Type} [DecidableEq H] [DecidableEq κ] (w : LeaseStore H κ)

def write (payload : LeasePayload H) : LeaseStore H κ :=
  { w with
    object := some (.ok payload, w.nextETag)
    nextETag := w.nextETag + 1
    last := Function.update w.last payload.holderId (some payload)
    writer := Function.update w.writer w.nextETag (some payload.holderId) }

/-- The write, if its condition holds. -/
def put : PutMode → LeasePayload H → Except OsError ETag × LeaseStore H κ
  | .create, payload =>
    match w.object with
    | some _ => (.error (.alreadyExists "object already exists"), w)
    | none => (.ok w.nextETag, w.write payload)
  | .update etag, payload =>
    match w.object with
    | some (_, current) =>
      if current = etag then (.ok w.nextETag, w.write payload)
      else (.error (.precondition "ETag does not match"), w)
    | none => (.error (.precondition "no such object"), w)

def noteLook (slot : κ) (payload : LeasePayload H) (etag : ETag) : LeaseStore H κ :=
  { w with looks := Function.update w.looks slot (some ⟨payload, etag, none⟩) }

/-- The first clock reading after a look belongs to it. -/
def noteClock (slot : κ) : LeaseStore H κ :=
  match w.looks slot with
  | some ⟨payload, etag, none⟩ =>
    { w with looks := Function.update w.looks slot (some ⟨payload, etag, some w.clock⟩) }
  | _ => w

def get (slot : κ) (withETag : Bool) :
    Except OsError (Except String (LeasePayload H) × Option ETag) × LeaseStore H κ :=
  match w.object with
  | none => (.error (.generic "object not found"), w)
  | some (.error source, etag) => (.ok (.error source, if withETag then some etag else none), w)
  | some (.ok payload, etag) =>
    (.ok (.ok payload, if withETag then some etag else none), w.noteLook slot payload etag)

def exec (slot : κ) (fault : Option Fault) (w : LeaseStore H κ) : (op : LeaseOp H) → op.Reply × LeaseStore H κ
  | .now => (w.clock, w.noteClock slot)
  | .put mode payload =>
    match fault with
    | none => ((w.put mode payload).1.map some, (w.put mode payload).2)
    | some (.unreachable message) => (.error (.generic message), w)
    | some (.replyLost message) => (.error (.generic message), (w.put mode payload).2)
    | some .noETag => ((w.put mode payload).1.map fun _ => none, (w.put mode payload).2)
  | .get =>
    match fault with
    | none => w.get slot true
    | some .noETag => w.get slot false
    | some (.unreachable message) | some (.replyLost message) => (.error (.generic message), w)

def wait (d : Nat) : LeaseStore H κ := { w with clock := w.clock + d }

end LeaseStore

/-! ## The calls -/

abbrev LeaseProgram (H α : Type) : Type := Prog (LeaseOp H) LeaseOp.Reply α

section Calls

variable {H : Type}

def utcNow : LeaseProgram H Nat := Prog.perform LeaseOp.now

def putOpts (mode : PutMode) (payload : LeasePayload H) : LeaseProgram H (Except OsError (Option ETag)) :=
  Prog.perform (LeaseOp.put mode payload)

def getObject : LeaseProgram H (Except OsError (Except String (LeasePayload H) × Option ETag)) :=
  Prog.perform LeaseOp.get

def requireETag (etag : Option ETag) (op : String) : Except LeaseError ETag :=
  match etag with
  | some etag => .ok etag
  | none => .error (.backend
    s!"object store didn't return an ETag on {op} — conditional-update semantics unavailable on this backend")

namespace ObjectStoreLease

variable (lease : ObjectStoreLease H)

def freshPayload : LeaseProgram H (LeasePayload H) := do
  return ⟨lease.holderId, (← utcNow) + lease.leaseDuration⟩

def readPayload : LeaseProgram H (Except LeaseError (LeasePayload H × ETag)) := do
  match ← getObject with
  | .error e => return .error (.backend e.message)
  | .ok (content, etag) =>
    match requireETag etag "Get" with
    | .error e => return .error e
    | .ok etag =>
      match content with
      | .error source => return .error (.malformed lease.path source)
      | .ok payload => return .ok (payload, etag)

/-- What a claim makes of the reply to its conditional update. -/
def stealReply (newPayload : LeasePayload H) :
    Except OsError (Option ETag) → LeaseProgram H (Except LeaseError (ClaimOutcome H))
  | .ok etag => return (requireETag etag "Update").map fun etag => .acquired etag newPayload
  | .error (.precondition _) => do
    -- lost the race: report the new holder
    match ← lease.readPayload with
    | .error e => return .error e
    | .ok (nowHeld, _) => return .ok (.heldByOther nowHeld)
  | .error e => return .error (.backend e.message)

/-- The conditional update of a claim, once the lease is found expired. -/
def steal (staleETag : ETag) : LeaseProgram H (Except LeaseError (ClaimOutcome H)) := do
  let newPayload ← lease.freshPayload
  lease.stealReply newPayload (← putOpts (.update staleETag) newPayload)

/-- The second step of a claim: read the lease that is there, and steal it if it has expired. -/
def claimExisting : LeaseProgram H (Except LeaseError (ClaimOutcome H)) := do
  match ← lease.readPayload with
  | .error e => return .error e
  | .ok (existing, staleETag) =>
    if (← utcNow) < existing.expiresAt then
      return .ok (.heldByOther existing)
    else
      lease.steal staleETag

/-- What a claim makes of the reply to its create. -/
def createReply (payload : LeasePayload H) :
    Except OsError (Option ETag) → LeaseProgram H (Except LeaseError (ClaimOutcome H))
  | .ok etag => return (requireETag etag "Create").map fun etag => .acquired etag payload
  | .error (.alreadyExists _) => lease.claimExisting
  | .error e => return .error (.backend e.message)

def tryClaim : LeaseProgram H (Except LeaseError (ClaimOutcome H)) := do
  let payload ← lease.freshPayload
  lease.createReply payload (← putOpts .create payload)

def heartbeatReply : Except OsError (Option ETag) → Except LeaseError ETag
  | .ok etag => requireETag etag "Update"
  | .error (.precondition _) => .error .leadershipLost
  | .error e => .error (.backend e.message)

def heartbeat (currentETag : ETag) : LeaseProgram H (Except LeaseError ETag) := do
  let payload ← lease.freshPayload
  return heartbeatReply (← putOpts (.update currentETag) payload)

end ObjectStoreLease

end Calls

end Dataglot
