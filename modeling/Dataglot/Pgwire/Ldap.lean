/-
LDAP logins (`ldap.rs`): the bind DN and the group filter are templates in which the
username, and in the filter the bind DN, are put in. The one escapes characters
(`escape_dn_value`), the other bytes (`escape_filter_value`).
-/
import Dataglot.Library.LdapSyntax
import Dataglot.Library.Replace
import Dataglot.Pgwire.Text

namespace Dataglot
open LdapSyntax
open Replace (replace)

/-! ## The login -/

structure LdapConfig where
  bindDnTemplate : Text
  groupSearchBase : Text
  groupFilterTemplate : Text
  groupNameAttr : Text

inductive LdapError
  | connection
  | bind
  | search
  deriving DecidableEq, Repr

structure LdapConnection where
  simpleBind : Text → Text → Except LdapError Bool
  searchGroupNames : Text → Text → Text → Except LdapError (List String)

inductive GroupLookup
  | resolved (names : List String)
  | unavailable
  deriving DecidableEq, Repr

inductive LdapOutcome
  | authFailed
  | authenticated (groups : GroupLookup)
  deriving DecidableEq, Repr

inductive LdapCall
  | simpleBind (dn password : Text)
  | searchGroupNames (base filter nameAttr : Text)
  deriving DecidableEq, Repr

namespace Ldap

/-- The body of the loop of `escape_filter_value`. -/
def escapeFilterByte (b : UInt8) : Text :=
  if b = 0x2a then ['\\', '2', 'a']
  else if b = 0x28 then ['\\', '2', '8']
  else if b = 0x29 then ['\\', '2', '9']
  else if b = 0x5c then ['\\', '5', 'c']
  else if b = 0 then ['\\', '0', '0']
  else [Char.ofNat b.toNat]

def escapeFilterValue (input : Text) : Text := (utf8 input).flatMap escapeFilterByte

/-- A character that `escape_dn_value` puts a backslash before. -/
def isEscaped (first last : Bool) (ch : Char) : Bool :=
  ch ∈ [',', '+', '"', '\\', '<', '>', ';', '='] || (ch == ' ' && (first || last)) || (ch == '#' && first)

/-- The loop of `escape_dn_value`, from its first character or a later one. -/
def escapeDnChars (first : Bool) : Text → Text
  | [] => []
  | ch :: rest =>
    if isEscaped first rest.isEmpty ch then '\\' :: ch :: escapeDnChars false rest else ch :: escapeDnChars false rest

def escapeDnValue (input : Text) : Text := escapeDnChars true input

/-- The `user` placeholder. -/
def userToken : Text := ['{', 'u', 's', 'e', 'r', '}']

/-- The `userdn` placeholder. -/
def userDnToken : Text := ['{', 'u', 's', 'e', 'r', 'd', 'n', '}']

variable (config : LdapConfig)

/-- The DN that is bound. -/
def userDn (user : Text) : Text := replace userToken (escapeDnValue user) config.bindDnTemplate

/-- The filter that is searched with. -/
def groupFilter (user : Text) : Text :=
  replace userToken (escapeFilterValue user)
    (replace userDnToken (escapeFilterValue (userDn config user)) config.groupFilterTemplate)

/-- `LdapAuthenticator::authenticate`, with the calls it makes. -/
def authenticate (connection : LdapConnection) (user password : Text) : List LdapCall × LdapOutcome :=
  if password.isEmpty then ([], .authFailed)
  else
    let bind := .simpleBind (userDn config user) password
    match connection.simpleBind (userDn config user) password with
    | .ok true =>
      let filter := groupFilter config user
      let groups :=
        match connection.searchGroupNames config.groupSearchBase filter config.groupNameAttr with
        | .ok names => .resolved names
        | .error _ => .unavailable
      ([bind, .searchGroupNames config.groupSearchBase filter config.groupNameAttr], .authenticated groups)
    | _ => ([bind], .authFailed)

/-! ## Templates -/

/-- What stands for a value in a bind DN template: a text as it is written there, or the placeholder. -/
inductive DnSlot
  | literal (raw : Text)
  | user
  deriving DecidableEq, Repr

/-- What stands for an assertion value in a group filter template. -/
inductive FilterSlot
  | literal (raw : Text)
  | user
  | userdn
  deriving DecidableEq, Repr

namespace DnSlot

def spelling : DnSlot → Text
  | literal raw => raw
  | user => userToken

/-- The text is a value without the placeholder in it. -/
def Valid : DnSlot → Prop
  | literal raw => (∃ v, Dn.readValue raw = some (v, [])) ∧ ¬ userToken <:+: raw
  | user => True

/-- The slot's value in the DN of a user. -/
def value (name : Text) : DnSlot → DnValue
  | literal raw => ((Dn.readValue raw).map Prod.fst).getD (.string [])
  | user => .string (utf8 name)

end DnSlot

namespace FilterSlot

def spelling : FilterSlot → Text
  | literal raw => raw
  | user => userToken
  | userdn => userDnToken

/-- The text is a value without a placeholder in it. -/
def Valid : FilterSlot → Prop
  | literal raw =>
    (∃ o, SearchFilter.readAssertion raw = some (o, [])) ∧ ¬ userToken <:+: raw ∧ ¬ userDnToken <:+: raw
  | user => True
  | userdn => True

/-- The slot's value in the filter for a user with a DN. -/
def value (name dn : Text) : FilterSlot → Octets
  | literal raw => ((SearchFilter.readAssertion raw).map Prod.fst).getD []
  | user => utf8 name
  | userdn => utf8 dn

end FilterSlot

end Ldap

end Dataglot
