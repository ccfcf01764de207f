/-
The logical codec (`ballista/codec.rs`): how it tells its own envelopes, which are protobuf
messages, from the bytes of the codec it wraps. A message is decoded as prost does it: fields
it does not know are skipped, and one that is absent has its default.
-/
import Mathlib

namespace Prost
open List

abbrev Bytes := List UInt8

inductive WireValue
  | varint (n : Nat)
  | len (bytes : Bytes)
  /-- of four or eight bytes -/
  | fixed (bytes : Bytes)

def varint (n : Nat) : Bytes :=
  if n < 128 then [UInt8.ofNat n] else UInt8.ofNat (n % 128 + 128) :: varint (n / 128)

def readVarint : Bytes → Option (Nat × Bytes)
  | [] => none
  | b :: rest => if b.toNat < 128 then some (b.toNat, rest)
    else (readVarint rest).map fun r => (b.toNat - 128 + 128 * r.1, r.2)

def readFixed (n : Nat) (bytes : Bytes) : Option (Bytes × Bytes) :=
  if bytes.length < n then none else some (bytes.take n, bytes.drop n)

/-- A field, with its tag; there are no groups. -/
def readField (bytes : Bytes) : Option ((Nat × WireValue) × Bytes) := do
  let (key, rest) ← readVarint bytes
  let tag := key / 8
  if tag = 0 then none else
  match key % 8 with
  | 0 => (readVarint rest).map fun r => ((tag, .varint r.1), r.2)
  | 1 => (readFixed 8 rest).map fun r => ((tag, .fixed r.1), r.2)
  | 2 => do
    let (n, rest) ← readVarint rest
    (readFixed n rest).map fun r => ((tag, .len r.1), r.2)
  | 5 => (readFixed 4 rest).map fun r => ((tag, .fixed r.1), r.2)
  | _ => none

def readFields : Nat → Bytes → Option (List (Nat × WireValue))
  | _, [] => some []
  | 0, _ :: _ => none
  | fuel + 1, bytes => do
    let (field, rest) ← readField bytes
    return field :: (← readFields fuel rest)

/-- The fields of a message; each takes a byte at least. -/
def readMessage (bytes : Bytes) : Option (List (Nat × WireValue)) := readFields bytes.length bytes

def writeField : Nat × WireValue → Bytes
  | (tag, .varint n) => varint (8 * tag) ++ varint n
  | (tag, .len bytes) => varint (8 * tag + 2) ++ (varint bytes.length ++ bytes)
  | (tag, .fixed bytes) => varint (8 * tag + if bytes.length = 8 then 1 else 5) ++ bytes

def asUInt32 : WireValue → Option Nat
  | .varint n => some (n % 2 ^ 32)
  | _ => none

def asBytes : WireValue → Option Bytes
  | .len bytes => some bytes
  | _ => none

def asString (v : WireValue) : Option String := asBytes v >>= fun bytes => String.fromUTF8? ⟨bytes.toArray⟩

/-- The last occurrence counts; none may be malformed. -/
def field {α : Type} (tag : Nat) (read : WireValue → Option α) (default : α)
    (fields : List (Nat × WireValue)) : Option α :=
  ((fields.filter (·.1 == tag)).mapM fun f => read f.2).map fun vs => vs.getLast?.getD default

def utf8 (s : String) : Bytes := s.toByteArray.data.toList

theorem readVarint_varint (n rest) : readVarint (varint n ++ rest) = some (n, rest) := by
  induction n using varint.induct with
  | case1 n hn =>
    rw [varint, if_pos hn, singleton_append, readVarint]
    simp [Nat.mod_eq_of_lt (Nat.lt_trans hn (by decide : 128 < 256)), hn]
  | case2 n hn ih =>
    have hb : (UInt8.ofNat (n % 128 + 128)).toNat = n % 128 + 128 := by
      rw [UInt8.toNat_ofNat']
      omega
    rw [varint, if_neg hn, cons_append, readVarint, if_neg (by omega), ih, Option.map_some, hb, Option.some.injEq]
    congr 1
    omega

/-- A field as it is written here. -/
def Plain : Nat × WireValue → Prop
  | (_, .fixed _) => False
  | (tag, _) => 0 < tag

theorem readField_write {f} (h : Plain f) (rest) : readField (writeField f ++ rest) = some (f, rest) := by
  obtain ⟨tag, v⟩ := f
  cases v with
  | varint n =>
    rw [writeField, append_assoc, readField, readVarint_varint]
    simp [readVarint_varint]
    exact Nat.ne_of_gt h
  | len bytes =>
    have h8 : (8 * tag + 2) / 8 = tag := by omega
    have hm : (8 * tag + 2) % 8 = 2 := by omega
    rw [writeField, append_assoc, readField, readVarint_varint]
    simp [readVarint_varint, h8, hm, readFixed]
    exact Nat.le_trans (by decide) (Nat.le_mul_of_pos_right 8 h)
  | fixed bytes => cases h

theorem readFields_write {fs : List (Nat × WireValue)} (h : ∀ f ∈ fs, Plain f) {fuel}
    (hf : (fs.flatMap writeField).length ≤ fuel) : readFields fuel (fs.flatMap writeField) = some fs := by
  induction fs generalizing fuel with
  | nil => cases fuel <;> rfl
  | cons f fs ih =>
    rw [forall_mem_cons] at h
    have hr := readField_write h.1
    cases hw : writeField f with
    | nil =>
      rw [hw] at hr
      cases hr []
    | cons b bytes =>
      rw [flatMap_cons, hw] at hf ⊢
      rw [hw] at hr
      simp only [cons_append, length_cons, length_append] at hf
      obtain ⟨fuel, rfl⟩ : ∃ n, fuel = n + 1 := Nat.exists_eq_add_one.mpr (by omega)
      specialize hr (fs.flatMap writeField)
      rw [cons_append] at hr ⊢
      simp [readFields, hr, ih h.2 (by omega : _ ≤ fuel)]

theorem readMessage_write {fs : List (Nat × WireValue)} (h : ∀ f ∈ fs, Plain f) :
    readMessage (fs.flatMap writeField) = some fs :=
  readFields_write h (Nat.le_refl _)

theorem asString_utf8 (s) : asString (.len (utf8 s)) = some s := by
  have hs : (⟨(utf8 s).toArray⟩ : ByteArray) = s.toByteArray := by simp [utf8]
  simp [asString, asBytes, hs, String.fromUTF8?, s.isValidUTF8]
  rfl

end Prost

namespace Dataglot.LogicalCodec
open List Prost

inductive CodecError
  | internal (message : String)
  | plan (message : String)

def logicalCodecVersion : Nat := 1

def providerKindWarehouse : String := "warehouse"

structure LogicalCodecPayload where
  connectorName : String
  innerPlan : Bytes
  version : Nat

structure TableProviderPayload where
  connectorName : String
  version : Nat
  providerKind : String

/-- A field that has its default is not written. -/
def present (isDefault : Bool) (f : Nat × WireValue) : List (Nat × WireValue) := if isDefault then [] else [f]

def LogicalCodecPayload.encode (p : LogicalCodecPayload) : Bytes :=
  (present (p.connectorName == "") (1, .len (utf8 p.connectorName)) ++ present (p.innerPlan == []) (2, .len p.innerPlan) ++
    present (p.version == 0) (3, .varint p.version)).flatMap writeField

def TableProviderPayload.encode (p : TableProviderPayload) : Bytes :=
  (present (p.connectorName == "") (1, .len (utf8 p.connectorName)) ++ present (p.version == 0) (2, .varint p.version) ++
    present (p.providerKind == "") (3, .len (utf8 p.providerKind))).flatMap writeField

def LogicalCodecPayload.decode (buf : Bytes) : Option LogicalCodecPayload := do
  let fields ← readMessage buf
  return ⟨← field 1 asString "" fields, ← field 2 asBytes [] fields, ← field 3 asUInt32 0 fields⟩

def TableProviderPayload.decode (buf : Bytes) : Option TableProviderPayload := do
  let fields ← readMessage buf
  return ⟨← field 1 asString "" fields, ← field 2 asUInt32 0 fields, ← field 3 asString "" fields⟩

theorem LogicalCodecPayload.decode_encode (name plan) :
    decode (encode ⟨name, plan, logicalCodecVersion⟩) = some ⟨name, plan, logicalCodecVersion⟩ := by
  rw [decode, encode, readMessage_write]
  · by_cases hn : name = "" <;> by_cases hp : plan = [] <;>
      simp [present, field, asString_utf8, asBytes, asUInt32, logicalCodecVersion, hn, hp]
  · simp only [present]
    split_ifs <;> simp [Plain]

theorem TableProviderPayload.decode_encode (name kind) :
    decode (encode ⟨name, logicalCodecVersion, kind⟩) = some ⟨name, logicalCodecVersion, kind⟩ := by
  rw [decode, encode, readMessage_write]
  · by_cases hn : name = "" <;> by_cases hk : kind = "" <;>
      simp [present, field, asString_utf8, asUInt32, logicalCodecVersion, hn, hk]
  · simp only [present]
    split_ifs <;> simp [Plain]

/-! ## Decoding -/

section Decode

variable {α β : Type}

/-- An envelope is recognised by its name or its version; the registry says for a name what rebuilds the rest. -/
def tryDecodeEnvelope (message : String) (registry : String → Option (β → Except CodecError α)) :
    Option (String × Nat × β) → Except CodecError (Option α)
  | none => .ok none
  | some (name, version, body) =>
    if name == "" && version == 0 then .ok none
    else if version ≠ logicalCodecVersion then
      .error (.internal s!"FederationLogicalCodec: unsupported {message} version {version}, expected {logicalCodecVersion}")
    else match registry name with
      | none => .error (.plan (s!"FederationLogicalCodec: connector '{name}' not registered on this worker — check " ++
          "`[catalogs.*]` agreement between coordinator and worker config"))
      | some rebuild => (rebuild body).map some

abbrev Registry (β α : Type) : Type := String → Option (β → Except CodecError α)

def tryDecodeFederation (registry : Registry Bytes α) (buf : Bytes) : Except CodecError (Option α) :=
  tryDecodeEnvelope "LogicalCodecPayload" registry
    ((LogicalCodecPayload.decode buf).map fun p => (p.connectorName, p.version, p.innerPlan))

def tryDecodeTableProviderFederation (registry : Registry Unit α) (buf : Bytes) : Except CodecError (Option α) :=
  tryDecodeEnvelope "TableProviderPayload" registry
    ((TableProviderPayload.decode buf).map fun p => (p.connectorName, p.version, ()))

/-- The warehouses, and how the debug format prints a name. -/
structure WarehouseRegistry (α : Type) where
  entries : List (String × α)
  debug : String → String

def tryDecodeWarehouseTableProvider (warehouses : WarehouseRegistry α) (buf : Bytes) : Except CodecError (Option α) :=
  match TableProviderPayload.decode buf with
  | none => .ok none
  | some payload =>
    let name := warehouses.debug payload.connectorName
    let version := payload.version
    if version == 0 || payload.providerKind != providerKindWarehouse then .ok none
    else if version ≠ logicalCodecVersion then
      .error (.internal ("FederationLogicalCodec: warehouse payload version mismatch: " ++
        s!"payload={version}, codec={logicalCodecVersion}"))
    else match warehouses.entries.lookup payload.connectorName with
      | none => .error (.plan (s!"no warehouse connector registered under name {name} on this side; registry has " ++
          s!"{warehouses.entries.length} entries — coordinator and executor [catalogs.*] names must match"))
      | some provider => .ok (some provider)

/-- What is not recognised goes on to the next. -/
def orNext (first : Except CodecError (Option α)) (next : Except CodecError α) : Except CodecError α :=
  first >>= fun found => found.elim next .ok

def tryDecode (registry : Option (Registry Bytes α)) (inner : Bytes → Except CodecError α) (buf : Bytes) :
    Except CodecError α :=
  orNext (registry.elim (.ok none) (tryDecodeFederation · buf)) (inner buf)

def tryDecodeTableProvider (warehouses : Option (WarehouseRegistry α)) (registry : Option (Registry Unit α))
    (inner : Bytes → Except CodecError α) (buf : Bytes) : Except CodecError α :=
  orNext (warehouses.elim (.ok none) (tryDecodeWarehouseTableProvider · buf))
    (orNext (registry.elim (.ok none) (tryDecodeTableProviderFederation · buf)) (inner buf))

/-- The envelope of a federated node, with the name of its connector. -/
def encodeFederation (name : String) (innerPlan : Bytes) : Bytes :=
  LogicalCodecPayload.encode ⟨name, innerPlan, logicalCodecVersion⟩

def encodeFederatedTableProvider (name : String) : Bytes := TableProviderPayload.encode ⟨name, logicalCodecVersion, ""⟩

def encodeWarehouseTableProvider (catalog : String) : Bytes :=
  TableProviderPayload.encode ⟨catalog, logicalCodecVersion, providerKindWarehouse⟩

/-! ## What is delegated -/

theorem orNext_const {first : Except CodecError (Option α)} (h : first ≠ .ok none) :
    ∃ r, ∀ next, orNext first next = r := by
  rcases first with e | _ | a
  · exact ⟨.error e, fun _ => rfl⟩
  · exact absurd rfl h
  · exact ⟨.ok a, fun _ => rfl⟩

theorem orNext_eq_next_iff {first : Except CodecError (Option α)} {f : Except CodecError α → Except CodecError α} :
    (∀ next, orNext first (f next) = next) ↔ first = .ok none ∧ ∀ next, f next = next := by
  constructor
  · intro h
    by_cases hf : first = .ok none
    · subst hf
      exact ⟨rfl, h⟩
    · obtain ⟨r, hr⟩ := orNext_const hf
      cases (h (.error (.plan ""))).symm.trans ((hr _).trans ((hr _).symm.trans (h (.error (.internal "")))))
  · rintro ⟨rfl, h⟩ next
    exact h next

theorem tryDecodeEnvelope_eq_none_iff {message payload} {registry : Registry β α} :
    tryDecodeEnvelope message registry payload = .ok none ↔
      ∀ q, payload = some q → q.1 = "" ∧ q.2.1 = 0 := by
  rcases payload with _ | ⟨name, version, body⟩
  · simp [tryDecodeEnvelope]
  · simp only [tryDecodeEnvelope, Bool.and_eq_true, beq_iff_eq, Option.some.injEq, forall_eq']
    constructor
    · intro h
      split_ifs at h with he hversion
      · exact he
      · cases hr : registry name with
        | none => simp [hr] at h
        | some rebuild => cases hb : rebuild body <;> simp [hr, hb, Except.map] at h
    · intro h
      rw [if_pos h]

theorem tryDecodeEnvelope_ne_none {message name body} {registry : Registry β α} :
    tryDecodeEnvelope message registry (some (name, logicalCodecVersion, body)) ≠ .ok none := by
  rw [Ne, tryDecodeEnvelope_eq_none_iff]
  intro h
  cases (h _ rfl).2

theorem tryDecodeWarehouse_eq_none_iff {warehouses : WarehouseRegistry α} {buf} :
    tryDecodeWarehouseTableProvider warehouses buf = .ok none ↔ ∀ p, TableProviderPayload.decode buf = some p →
      p.version = 0 ∨ p.providerKind ≠ providerKindWarehouse := by
  unfold tryDecodeWarehouseTableProvider
  cases hd : TableProviderPayload.decode buf with
  | none => simp
  | some p =>
    simp only [Bool.or_eq_true, beq_iff_eq, bne_iff_ne, Option.some.injEq, forall_eq']
    constructor
    · intro h
      split_ifs at h with he hversion
      · exact he
      · cases hl : warehouses.entries.lookup p.connectorName <;> simp [hl] at h
    · intro h
      rw [if_pos h]

theorem orNext_envelope {message name} {body : β} {registry : Registry β α} {rebuild} (h : registry name = some rebuild)
    (next) : orNext (tryDecodeEnvelope message registry (some (name, logicalCodecVersion, body))) next = rebuild body := by
  rw [tryDecodeEnvelope, if_neg (by simp [logicalCodecVersion]), if_neg (by simp), h]
  dsimp only
  cases rebuild body <;> rfl

/-- What the codec has encoded comes back from the registry that knows the name, without the inner codec: for a node
what is rebuilt from its inner plan, for a provider the registered one. Without a warehouse registry, the connector of
the name takes a warehouse's place. -/
theorem encoded_comes_back (registry : Registry Bytes α) (warehouses : WarehouseRegistry α) (providers : Registry Unit α)
    (inner : Bytes → Except CodecError α) (name : String) :
    (∀ plan rebuild, registry name = some rebuild →
      tryDecode (some registry) inner (encodeFederation name plan) = rebuild plan) ∧
    (∀ rebuild, providers name = some rebuild →
      tryDecodeTableProvider (some warehouses) (some providers) inner (encodeFederatedTableProvider name) = rebuild () ∧
      tryDecodeTableProvider none (some providers) inner (encodeWarehouseTableProvider name) = rebuild ()) ∧
    ∀ provider, warehouses.entries.lookup name = some provider →
      tryDecodeTableProvider (some warehouses) (some providers) inner (encodeWarehouseTableProvider name) =
        .ok provider := by
  have hp : ∀ {rebuild kind next}, providers name = some rebuild → orNext (tryDecodeTableProviderFederation providers
      (TableProviderPayload.encode ⟨name, logicalCodecVersion, kind⟩)) next = rebuild () := by
    intro rebuild kind next h
    rw [tryDecodeTableProviderFederation, TableProviderPayload.decode_encode]
    exact orNext_envelope h _
  refine ⟨fun plan rebuild h => ?_, fun rebuild h => ⟨?_, hp h⟩, fun provider h => ?_⟩
  · rw [tryDecode, Option.elim_some, tryDecodeFederation, encodeFederation, LogicalCodecPayload.decode_encode]
    exact orNext_envelope h _
  · have hw : tryDecodeWarehouseTableProvider warehouses (encodeFederatedTableProvider name) = .ok none := by
      rw [tryDecodeWarehouse_eq_none_iff, encodeFederatedTableProvider, TableProviderPayload.decode_encode]
      rintro p ⟨⟩
      exact .inr (by simp [providerKindWarehouse])
    rw [tryDecodeTableProvider, Option.elim_some, hw]
    exact hp h
  · rw [tryDecodeTableProvider, Option.elim_some, tryDecodeWarehouseTableProvider, encodeWarehouseTableProvider,
      TableProviderPayload.decode_encode]
    simp only [h]
    rfl

end Decode

end Dataglot.LogicalCodec
