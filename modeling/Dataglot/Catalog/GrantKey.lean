/-
The two orders in which grants are listed (`store.rs`, `redb_store.rs`): the derived one of
`GrantRecord`, and the one of the JSON texts that the grants have as keys in the redb store.
-/
import Dataglot.Library.OrderedTable
import Dataglot.Server.GrantAdmin

namespace Dataglot

/-! ## Texts of strings -/

namespace SerdeJson

def hexDigit (n : Nat) : Char := "0123456789abcdef".toList.getD n '0'

/-- A character as `serde_json` writes it in a string. -/
def escapeChar (c : Char) : List Char :=
  if c = '"' then ['\\', '"']
  else if c = '\\' then ['\\', '\\']
  else if c = '\x08' then ['\\', 'b']
  else if c = '\t' then ['\\', 't']
  else if c = '\n' then ['\\', 'n']
  else if c = '\x0c' then ['\\', 'f']
  else if c = '\r' then ['\\', 'r']
  else if c.toNat < 32 then ['\\', 'u', '0', '0', hexDigit (c.toNat / 16), hexDigit (c.toNat % 16)]
  else [c]

def quoted (s : String) : List Char := '"' :: s.toList.flatMap escapeChar ++ ['"']

/-- The character that an escaped text begins with, and the text behind it. -/
def readChar : List Char → Option (Char × List Char)
  | '\\' :: 'u' :: '0' :: '0' :: high :: low :: rest =>
    some (Char.ofNat (16 * "0123456789abcdef".toList.idxOf high + "0123456789abcdef".toList.idxOf low), rest)
  | '\\' :: 'b' :: rest => some ('\x08', rest)
  | '\\' :: 't' :: rest => some ('\t', rest)
  | '\\' :: 'n' :: rest => some ('\n', rest)
  | '\\' :: 'f' :: rest => some ('\x0c', rest)
  | '\\' :: 'r' :: rest => some ('\r', rest)
  | '\\' :: c :: rest => some (c, rest)
  | c :: rest => some (c, rest)
  | [] => none

theorem readChar_of_ne {c} (h : c ≠ '\\') (rest) : readChar (c :: rest) = some (c, rest) := by
  unfold readChar
  split <;> simp_all

theorem readChar_escapeChar (c rest) : readChar (escapeChar c ++ rest) = some (c, rest) := by
  unfold escapeChar
  split_ifs with h₁ h₂ h₃ h₄ h₅ h₆ h₇ hc
  all_goals try (subst c; rfl)
  · -- one of the 32 control characters
    obtain ⟨n, hn, rfl⟩ : ∃ n < 32, c = Char.ofNat n := ⟨c.toNat, hc, (Char.ofNat_toNat c).symm⟩
    interval_cases n <;> rfl
  · exact readChar_of_ne h₂ rest

theorem head_escapeChar_ne (c rest rest') : escapeChar c ++ rest ≠ '"' :: rest' := by
  unfold escapeChar
  split_ifs with h₁ <;> simp [h₁]

theorem quoted_append_inj {s s' rest rest'} (h : quoted s ++ rest = quoted s' ++ rest') : s = s' ∧ rest = rest' := by
  have hc : ∀ {cs cs' : List Char}, cs.flatMap escapeChar ++ '"' :: rest = cs'.flatMap escapeChar ++ '"' :: rest' →
      cs = cs' ∧ rest = rest' := by
    intro cs
    induction cs with
    | nil =>
      intro cs' h
      cases cs' with
      | nil => exact ⟨rfl, (List.cons.inj h).2⟩
      | cons c' cs' =>
        rw [List.flatMap_cons, List.append_assoc] at h
        exact absurd h.symm (head_escapeChar_ne c' _ _)
    | cons c cs ih =>
      intro cs' h
      cases cs' with
      | nil =>
        rw [List.flatMap_cons, List.append_assoc] at h
        exact absurd h (head_escapeChar_ne c _ _)
      | cons c' cs' =>
        simp only [List.flatMap_cons, List.append_assoc] at h
        have hre := congrArg readChar h
        rw [readChar_escapeChar, readChar_escapeChar, Option.some.injEq, Prod.mk.injEq] at hre
        obtain ⟨rfl, ht⟩ := hre
        obtain ⟨rfl, hr⟩ := ih ht
        exact ⟨rfl, hr⟩
  simp only [quoted, List.cons_append, List.append_assoc, List.cons.injEq, true_and, List.nil_append] at h
  obtain ⟨hs, hr⟩ := hc h
  exact ⟨String.toList_inj.mp hs, hr⟩

/-- Strings, each behind what is written before it, and what is written at the end. -/
def written : List (String × String) → String → List Char
  | [], tail => tail.toList
  | (name, value) :: fields, tail => name.toList ++ (quoted value ++ written fields tail)

theorem written_cons_inj {name value value' fields fields' tail tail'}
    (h : written ((name, value) :: fields) tail = written ((name, value') :: fields') tail') :
    value = value' ∧ written fields tail = written fields' tail' :=
  quoted_append_inj (List.append_cancel_left h)

end SerdeJson

/-! ## Keys -/

def GranteeKind.asStr : GranteeKind → String
  | user => "user"
  | role => "role"

/-- The fields of a grant, each with what `serde_json` writes before its value. -/
def GrantOn.written : GrantOn → List (String × String)
  | select catalog schema table =>
    [(",\"on\":\x7b\"privilege\":", "select"), (",\"catalog\":", catalog), (",\"schema\":", schema),
      (",\"table\":", table)]
  | usage catalog => [(",\"on\":\x7b\"privilege\":", "usage"), (",\"catalog\":", catalog)]

def GrantRecord.text (g : GrantRecord) : List Char :=
  SerdeJson.written (("\x7b\"grantee_kind\":", g.granteeKind.asStr) :: (",\"grantee\":", g.grantee) :: g.grantOn.written)
    "\x7d\x7d"

def grantKey (g : GrantRecord) : String := String.ofList g.text

open SerdeJson in
theorem GrantOn.written_inj {on₁ on₂ : GrantOn} {tail}
    (h : SerdeJson.written on₁.written tail = SerdeJson.written on₂.written tail) : on₁ = on₂ := by
  cases on₁ with
  | select catalog schema table =>
    cases on₂ with
    | select catalog' schema' table' =>
      obtain ⟨-, hr⟩ := written_cons_inj h
      obtain ⟨hc, hr⟩ := written_cons_inj hr
      obtain ⟨hs, hr⟩ := written_cons_inj hr
      obtain ⟨ht, -⟩ := written_cons_inj hr
      rw [hc, hs, ht]
    | usage catalog' =>
      obtain ⟨hp, -⟩ := written_cons_inj h
      exact absurd hp (by decide)
  | usage catalog =>
    cases on₂ with
    | select catalog' schema' table' =>
      obtain ⟨hp, -⟩ := written_cons_inj h
      exact absurd hp (by decide)
    | usage catalog' =>
      obtain ⟨-, hr⟩ := written_cons_inj h
      obtain ⟨hc, -⟩ := written_cons_inj hr
      rw [hc]

theorem GranteeKind.asStr_injective : Function.Injective GranteeKind.asStr := by
  intro kind kind' h
  cases kind <;> cases kind' <;> first | rfl | exact absurd h (by decide)

/-- Equal grants collide, and no others. -/
theorem grantKey_injective : Function.Injective grantKey := by
  rintro ⟨kind, grantee, on₁⟩ ⟨kind', grantee', on₂⟩ h
  have ht := String.ofList_injective h
  obtain ⟨hk, hr⟩ := SerdeJson.written_cons_inj ht
  obtain ⟨hg, hr⟩ := SerdeJson.written_cons_inj hr
  exact congr (congrArg₂ GrantRecord.mk (GranteeKind.asStr_injective hk) hg) (GrantOn.written_inj hr)

/-! ## Orders -/

/-- What the derived order of `GrantRecord` compares, one after the other. -/
def GrantRecord.fields (g : GrantRecord) : Nat ×ₗ String ×ₗ Nat ×ₗ String ×ₗ String ×ₗ String :=
  let kind := match g.granteeKind with
    | .user => 0
    | .role => 1
  match g.grantOn with
  | .select catalog schema table =>
    toLex (kind, toLex (g.grantee, toLex (0, toLex (catalog, toLex (schema, table)))))
  | .usage catalog => toLex (kind, toLex (g.grantee, toLex (1, toLex (catalog, toLex ("", "")))))

theorem GrantRecord.fields_injective : Function.Injective GrantRecord.fields := by
  rintro ⟨kind, grantee, on₁⟩ ⟨kind', grantee', on₂⟩ h
  cases kind <;> cases kind' <;> cases on₁ <;> cases on₂ <;> simp_all [GrantRecord.fields]

/-- The order of a `BTreeSet<GrantRecord>`. -/
def derivedOrder : GrantRecord ↪ Nat ×ₗ String ×ₗ Nat ×ₗ String ×ₗ String ×ₗ String :=
  ⟨GrantRecord.fields, GrantRecord.fields_injective⟩

/-- The order of the table of grants. -/
def keyOrder : GrantRecord ↪ String := ⟨grantKey, grantKey_injective⟩

end Dataglot
