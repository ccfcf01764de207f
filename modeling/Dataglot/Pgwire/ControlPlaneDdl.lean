/-
The control-plane statements that the pg wire front end takes out of a message before
any planner sees it (`catalog_ddl.rs`, `secret_ddl.rs`, `user_ddl.rs`, `policy_ddl.rs`,
`grant_ddl.rs`, `view_ddl.rs`): what each parser accepts, and what it reads off.
-/
import Dataglot.Pgwire.Text

namespace Dataglot
open Text Option

variable (U : UnicodeTables)

/-! ## Catalogs -/

inductive CatalogDdl
  | create (name : String) (options : HashMap String) (orReplace ifNotExists : Bool)
  | alter (name : String) (options : HashMap String)
  | drop (name : String) (ifExists : Bool)
  deriving DecidableEq

namespace CatalogDdl

def parseCreate (s : Text) : Option CatalogDdl := do
  let (orReplace, s) ← parseOrReplace s
  let s ← keyword s "CATALOG"
  let (ifNotExists, s) ← parseIfNotExists s
  let (name, s) ← parseIdentifier U s
  let s ← keyword (trimStart s) "WITH"
  let options ← parseOptionBag U s
  some (.create name options orReplace ifNotExists)

def parseAlter (s : Text) : Option CatalogDdl := do
  let s ← keyword s "CATALOG"
  let (name, s) ← parseIdentifier U s
  let s ← keyword (trimStart s) "WITH"
  let options ← parseOptionBag U s
  some (.alter name options)

def parseDrop (s : Text) : Option CatalogDdl := do
  let s ← keyword s "CATALOG"
  let (name, ifExists) ← parseDropped U s
  some (.drop name ifExists)

end CatalogDdl

def parseCatalogDdl (query : Text) : Option CatalogDdl :=
  onKeyword (withoutTerminator query)
    [("CREATE", CatalogDdl.parseCreate U), ("ALTER", CatalogDdl.parseAlter U), ("DROP", CatalogDdl.parseDrop U)]

/-! ## Secrets -/

inductive SecretDdl
  | create (name value : String) (orReplace ifNotExists : Bool)
  | drop (name : String) (ifExists : Bool)
  deriving DecidableEq

namespace SecretDdl

def parseCreate (s : Text) : Option SecretDdl := do
  let (orReplace, s) ← parseOrReplace s
  let s ← keyword s "SECRET"
  let (ifNotExists, s) ← parseIfNotExists s
  let (name, s) ← parseIdentifier U s
  let s ← keyword (trimStart s) "AS"
  let (value, rest) ← parseValue (trimStart s)
  parseEnd rest
  some (.create name value orReplace ifNotExists)

def parseDrop (s : Text) : Option SecretDdl := do
  let s ← keyword s "SECRET"
  let (name, ifExists) ← parseDropped U s
  some (.drop name ifExists)

end SecretDdl

def parseSecretDdl (query : Text) : Option SecretDdl :=
  onKeyword (withoutTerminator query) [("CREATE", SecretDdl.parseCreate U), ("DROP", SecretDdl.parseDrop U)]

/-! ## Users and roles -/

inductive UserDdl
  | createUser (name : String) (password : Option String) (superuser ifNotExists : Bool)
  | alterUserPassword (name password : String)
  | dropUser (name : String) (ifExists : Bool)
  | createRole (name : String) (ifNotExists : Bool)
  | dropRole (name : String) (ifExists : Bool)
  deriving DecidableEq, Repr

namespace UserDdl

/-- The optional noise word `WITH`. -/
def skipWith (s : Text) : Text := (keyword s "WITH").getD s

/-- The optional `PASSWORD '…'`. -/
def parsePassword (s : Text) : Option (Option String × Text) :=
  match keyword s "PASSWORD" with
  | some afterPw => (parseValue (trimStart afterPw)).map fun (pw, rest) => (some pw, trimStart rest)
  | none => some (none, s)

/-- The optional `SUPERUSER` or `NOSUPERUSER`; no other word may stand here. -/
def parseSuperuser (s : Text) : Option (Bool × Text) :=
  if s.isEmpty then some (false, s)
  else match word s "NOSUPERUSER" with
    | some rest => some (false, rest)
    | none => (word s "SUPERUSER").map (true, ·)

def parseCreateUser (s : Text) : Option UserDdl := do
  let (ifNotExists, s) ← parseIfNotExists s
  let (name, s) ← parseIdentifier U s
  let (password, s) ← parsePassword (skipWith (trimStart s))
  let (superuser, s) ← parseSuperuser s
  parseEnd s
  some (.createUser name password superuser ifNotExists)

def parseCreateRole (s : Text) : Option UserDdl := do
  let (ifNotExists, s) ← parseIfNotExists s
  let (name, rest) ← parseIdentifier U s
  parseEnd rest
  some (.createRole name ifNotExists)

def parseCreate (s : Text) : Option UserDdl :=
  onKeyword s [("USER", parseCreateUser U), ("ROLE", parseCreateRole U)]

def parseAlter (s : Text) : Option UserDdl := do
  let s ← keyword s "USER"
  let (name, s) ← parseIdentifier U s
  let s ← keyword (skipWith (trimStart s)) "PASSWORD"
  let (password, rest) ← parseValue (trimStart s)
  parseEnd rest
  some (.alterUserPassword name password)

def parseDrop (s : Text) : Option UserDdl :=
  onKeyword s
    [("USER", fun rest => (parseDropped U rest).map fun (name, ifExists) => .dropUser name ifExists),
     ("ROLE", fun rest => (parseDropped U rest).map fun (name, ifExists) => .dropRole name ifExists)]

end UserDdl

def parseUserDdl (query : Text) : Option UserDdl :=
  onKeyword (withoutTerminator query)
    [("CREATE", UserDdl.parseCreate U), ("ALTER", UserDdl.parseAlter U), ("DROP", UserDdl.parseDrop U)]

/-! ## Masks and row filters -/

/-- `PolicyMask`: the literal of `AS`, or the `type` of `WITH` and the other options. -/
inductive PolicyMask
  | literal (value : String)
  | typed (maskType : String) (options : HashMap String)
  deriving DecidableEq

inductive PolicyDdl
  | createMask (name table column : String) (mask : PolicyMask) (ifNotExists : Bool)
  | createRowFilter (name table predicate : String) (ifNotExists : Bool)
  | dropMask (name : String) (ifExists : Bool)
  | dropRowFilter (name : String) (ifExists : Bool)
  deriving DecidableEq

namespace PolicyDdl

/-- The loop of `parse_table_ref`; a part is read in each round. -/
def parseTableParts : Nat → String → Text → Option (String × Text)
  | 0, _, _ => none
  | fuel + 1, parts, rest =>
    match stripChar '.' rest with
    | none => some (parts, rest)
    | some afterDot => do
      let (part, r) ← parseIdentifier U afterDot
      parseTableParts fuel (parts ++ "." ++ part) r

def parseTableRef (s : Text) : Option (String × Text) := do
  let (first, rest) ← parseIdentifier U s
  parseTableParts U (rest.length + 1) first rest

def parseParenthesizedIdent (s : Text) : Option (String × Text) := do
  let inner ← stripChar '(' (trimStart s)
  let (ident, rest) ← parseIdentifier U inner
  let rest ← stripChar ')' (trimStart rest)
  some (ident, rest)

/-- The loop of `parse_balanced_parens` behind the opening parenthesis: `depth` more than one are open, and
a doubled quote does not close a string. -/
def parseBalanced (depth : Nat) (inStr : Bool) : Text → Option (Text × Text)
  | [] => none
  | [c] => if !inStr && c == ')' && depth == 0 then some ([], []) else none
  | c :: d :: rest =>
    let step (depth : Nat) (inStr : Bool) := (parseBalanced depth inStr (d :: rest)).map fun (out, r) => (c :: out, r)
    if inStr then
      if c = '\'' then
        if d = '\'' then (parseBalanced depth true rest).map fun (out, r) => (c :: d :: out, r)
        else step depth false
      else step depth true
    else if c = '\'' then step depth true
    else if c = '(' then step (depth + 1) false
    else if c = ')' then
      match depth with
      | 0 => some ([], d :: rest)
      | depth + 1 => step depth false
    else step depth false

def parseBalancedParens (s : Text) : Option (Text × Text) := do
  let rest ← stripChar '(' s
  parseBalanced 0 false rest

def parseRowFilterKw (s : Text) : Option Text := do
  let afterRow ← keyword s "ROW"
  keyword afterRow "FILTER"

/-- How the column is masked, behind `( <column> )`. -/
def parseMask (s : Text) : Option PolicyMask :=
  onKeyword s
    [("AS", fun afterAs => do
        let (literal, rest) ← parseValue (trimStart afterAs)
        parseEnd rest
        some (.literal literal)),
     ("WITH", fun afterWith => do
        let options ← parseOptionBag U afterWith
        let maskType ← options.lookup "type"
        some (.typed maskType (options.erase "type")))]

def parseCreateMask (s : Text) : Option PolicyDdl := do
  let (ifNotExists, s) ← parseIfNotExists s
  let (name, s) ← parseIdentifier U s
  let s ← keyword (trimStart s) "ON"
  let (table, s) ← parseTableRef U s
  let (column, s) ← parseParenthesizedIdent U s
  let mask ← parseMask U (trimStart s)
  some (.createMask name table column mask ifNotExists)

def parseCreateRowFilter (s : Text) : Option PolicyDdl := do
  let (ifNotExists, s) ← parseIfNotExists s
  let (name, s) ← parseIdentifier U s
  let s ← keyword (trimStart s) "ON"
  let (table, s) ← parseTableRef U s
  let s ← keyword (trimStart s) "USING"
  let (predicate, rest) ← parseBalancedParens (trimStart s)
  parseEnd rest
  if (trim predicate).isEmpty then none
  else some (.createRowFilter name table (String.ofList (trim predicate)) ifNotExists)

def parseCreate (s : Text) : Option PolicyDdl :=
  match keyword s "MASK", parseRowFilterKw s with
  | some rest, _ => parseCreateMask U rest
  | none, some rest => parseCreateRowFilter U rest
  | none, none => none

def parseDrop (s : Text) : Option PolicyDdl :=
  match keyword s "MASK", parseRowFilterKw s with
  | some rest, _ => (parseDropped U rest).map fun (name, ifExists) => .dropMask name ifExists
  | none, some rest => (parseDropped U rest).map fun (name, ifExists) => .dropRowFilter name ifExists
  | none, none => none

end PolicyDdl

def parsePolicyDdl (query : Text) : Option PolicyDdl :=
  onKeyword (withoutTerminator query) [("CREATE", PolicyDdl.parseCreate U), ("DROP", PolicyDdl.parseDrop U)]

/-! ## Grants -/

inductive GrantDdl
  | grantSelect (catalog schema table grantee : String)
  | grantUsage (catalog grantee : String)
  | revokeSelect (catalog schema table grantee : String)
  | revokeUsage (catalog grantee : String)
  | grantRole (role user : String)
  | revokeRole (role user : String)
  deriving DecidableEq

namespace GrantDdl

def parseThreePartTable (s : Text) : Option (String × String × String × Text) := do
  let (catalog, rest) ← parseIdentifier U s
  let rest ← stripChar '.' rest
  let (schema, rest) ← parseIdentifier U rest
  let rest ← stripChar '.' rest
  let (table, rest) ← parseIdentifier U rest
  if rest.head? = some '.' then none else some (catalog, schema, table, rest)

/-- `<TO|FROM> <grantee>` and nothing more, which every grant ends with. -/
def parseGrantee (s : Text) (toKw : String) : Option String := do
  let rest ← keyword (trimStart s) toKw
  let (grantee, tail) ← parseIdentifier U rest
  parseEnd tail
  some grantee

def parseSelectTarget (s : Text) (toKw : String) : Option (String × String × String × String) := do
  let s ← keyword (trimStart s) "ON"
  let (catalog, schema, table, rest) ← parseThreePartTable U (trimStart s)
  let grantee ← parseGrantee U rest toKw
  some (catalog, schema, table, grantee)

def parseUsageTarget (s : Text) (toKw : String) : Option (String × String) := do
  let s ← keyword (trimStart s) "ON"
  let s ← keyword (trimStart s) "CATALOG"
  let (catalog, rest) ← parseIdentifier U (trimStart s)
  let grantee ← parseGrantee U rest toKw
  some (catalog, grantee)

def parseMembership (s : Text) (toKw : String) : Option (String × String) := do
  let (role, rest) ← parseIdentifier U s
  let user ← parseGrantee U rest toKw
  some (role, user)

def parseGrant (s : Text) : Option GrantDdl :=
  match keyword s "SELECT", keyword s "USAGE" with
  | some rest, _ =>
    (parseSelectTarget U rest "TO").map fun (catalog, schema, table, grantee) =>
      .grantSelect catalog schema table grantee
  | none, some rest => (parseUsageTarget U rest "TO").map fun (catalog, grantee) => .grantUsage catalog grantee
  | none, none => (parseMembership U s "TO").map fun (role, user) => .grantRole role user

def parseRevoke (s : Text) : Option GrantDdl :=
  match keyword s "SELECT", keyword s "USAGE" with
  | some rest, _ =>
    (parseSelectTarget U rest "FROM").map fun (catalog, schema, table, grantee) =>
      .revokeSelect catalog schema table grantee
  | none, some rest => (parseUsageTarget U rest "FROM").map fun (catalog, grantee) => .revokeUsage catalog grantee
  | none, none => (parseMembership U s "FROM").map fun (role, user) => .revokeRole role user

end GrantDdl

def parseGrantDdl (query : Text) : Option GrantDdl :=
  onKeyword (withoutTerminator query) [("GRANT", GrantDdl.parseGrant U), ("REVOKE", GrantDdl.parseRevoke U)]

/-! ## Views -/

inductive ViewDdl
  | create (catalog schema : Option String) (name query : String) (orReplace : Bool)
  | drop (catalog schema : Option String) (name : String) (ifExists : Bool)
  deriving DecidableEq

namespace ViewDdl

/-- The loop of `parse_dotted_name`. A fourth part ends it, so that four rounds are enough. -/
def parseNameParts : Nat → List String → Text → Option (List String × Text)
  | 0, _, _ => none
  | fuel + 1, parts, rest =>
    match stripChar '.' (trimStart rest) with
    | none => some (parts, rest)
    | some afterDot => do
      let (part, r) ← parseIdentifier U afterDot
      if 3 < (parts ++ [part]).length then none else parseNameParts fuel (parts ++ [part]) r

def parseDottedName (s : Text) : Option (Option String × Option String × String × Text) := do
  let (first, rest) ← parseIdentifier U s
  let (parts, rest) ← parseNameParts U 4 [first] rest
  match parts with
  | [name] => some (none, none, name, rest)
  | [schema, name] => some (none, some schema, name, rest)
  | [catalog, schema, name] => some (some catalog, some schema, name, rest)
  | _ => none

def parseCreate (s : Text) : Option ViewDdl := do
  let (orReplace, s) ← parseOrReplace s
  let s ← keyword s "VIEW"
  let (catalog, schema, name, rest) ← parseDottedName U s
  let afterAs ← keyword (trimStart rest) "AS"
  if (trim afterAs).isEmpty then none
  else some (.create catalog schema name (String.ofList (trim afterAs)) orReplace)

def parseDrop (s : Text) : Option ViewDdl := do
  let s ← keyword s "VIEW"
  let (ifExists, s) ← parseIfExists s
  let (catalog, schema, name, rest) ← parseDottedName U s
  parseEnd rest
  some (.drop catalog schema name ifExists)

end ViewDdl

def parseViewDdl (query : Text) : Option ViewDdl :=
  onKeyword (withoutTerminator query) [("CREATE", ViewDdl.parseCreate U), ("DROP", ViewDdl.parseDrop U)]

/-! ## The loops' fuel -/

theorem PolicyDdl.parseTableParts_fuel {n m parts rest} (hn : rest.length < n)
    (hm : rest.length < m) : parseTableParts U n parts rest = parseTableParts U m parts rest := by
  induction n generalizing m parts rest with
  | zero => omega
  | succ n ih =>
    obtain ⟨m, rfl⟩ : ∃ k, m = k + 1 := ⟨m - 1, by omega⟩
    unfold parseTableParts
    cases hd : stripChar '.' rest with
    | none => rfl
    | some afterDot =>
      simp only [bind_eq_bind]
      refine bind_congr fun read hr => ?_
      have hlt : read.2.length < rest.length := (length_parseIdentifier U hr).trans (length_stripChar hd)
      exact ih (hlt.trans_le (Nat.le_of_lt_succ hn)) (hlt.trans_le (Nat.le_of_lt_succ hm))

theorem ViewDdl.parseNameParts_fuel {n m parts rest} (hn : 3 < n + parts.length)
    (hm : 3 < m + parts.length) (hparts : parts.length ≤ 3) :
    parseNameParts U n parts rest = parseNameParts U m parts rest := by
  induction n generalizing m parts rest with
  | zero => omega
  | succ n ih =>
    obtain ⟨m, rfl⟩ : ∃ k, m = k + 1 := ⟨m - 1, by omega⟩
    unfold parseNameParts
    cases stripChar '.' (trimStart rest) with
    | none => rfl
    | some afterDot =>
      simp only [bind_eq_bind]
      refine bind_congr fun read hread => ?_
      split_ifs with hl
      · rfl
      · rw [List.length_append, List.length_singleton] at hl
        refine ih ?_ ?_ ?_ <;> rw [List.length_append, List.length_singleton] <;> omega

/-! ## All six -/

inductive Seam
  | catalog | secret | user | policy | grant | view
  deriving DecidableEq, Repr

inductive ControlPlaneDdl
  | catalog (ddl : CatalogDdl)
  | secret (ddl : SecretDdl)
  | user (ddl : UserDdl)
  | policy (ddl : PolicyDdl)
  | grant (ddl : GrantDdl)
  | view (ddl : ViewDdl)
  deriving DecidableEq

def ControlPlaneDdl.seam : ControlPlaneDdl → Seam
  | .catalog _ => .catalog
  | .secret _ => .secret
  | .user _ => .user
  | .policy _ => .policy
  | .grant _ => .grant
  | .view _ => .view

/-- The parsers in the order in which the handler asks them. -/
def parseControlPlaneDdl (stmt : Text) : Option ControlPlaneDdl :=
  (parseCatalogDdl U stmt).map .catalog <|> (parseSecretDdl U stmt).map .secret <|>
  (parseUserDdl U stmt).map .user <|> (parsePolicyDdl U stmt).map .policy <|>
  (parseGrantDdl U stmt).map .grant <|> (parseViewDdl U stmt).map .view

def isControlPlaneDdl (stmt : Text) : Bool :=
  (parseCatalogDdl U stmt).isSome || (parseSecretDdl U stmt).isSome || (parseUserDdl U stmt).isSome ||
    (parsePolicyDdl U stmt).isSome || (parseGrantDdl U stmt).isSome || (parseViewDdl U stmt).isSome

theorem isControlPlaneDdl_eq (stmt) : isControlPlaneDdl U stmt = (parseControlPlaneDdl U stmt).isSome := by
  unfold isControlPlaneDdl parseControlPlaneDdl
  simp only [orElse_eq_orElse, orElse_eq_or, isSome_or, isSome_map, Bool.or_assoc]

/-- The words that a control-plane statement begins with. -/
def ddlKeywords : List String := ["CREATE", "ALTER", "DROP", "GRANT", "REVOKE"]

theorem ledBy_of_isControlPlaneDdl {query} (h : isControlPlaneDdl U query = true) :
    LedBy ddlKeywords (withoutTerminator query) := by
  simp only [isControlPlaneDdl, Bool.or_eq_true, isSome_iff_exists] at h
  rcases h with ((((⟨d, hd⟩ | ⟨d, hd⟩) | ⟨d, hd⟩) | ⟨d, hd⟩) | ⟨d, hd⟩) | ⟨d, hd⟩ <;>
    exact (ledBy_of_onKeyword hd).mono (by simp only [List.map_cons, List.map_nil]; decide)

end Dataglot
