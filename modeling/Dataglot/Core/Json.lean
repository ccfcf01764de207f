/-
`serde_json::Value`, as far as the code looks into one.
-/
import Mathlib

namespace Dataglot

/-- `serde_json::Value`. -/
inductive Json
  | null
  | bool (b : Bool)
  | number (text : String)
  | string (s : String)
  | array (items : List Json)
  | object (fields : List (String × Json))

namespace Json

/-- `Value::get` with a string. -/
def get (v : Json) (key : String) : Option Json :=
  match v with
  | object fields => fields.lookup key
  | _ => none

def asStr : Json → Option String
  | string s => some s
  | _ => none

def asArray : Json → Option (List Json)
  | array items => some items
  | _ => none

def isObject : Json → Bool
  | object _ => true
  | _ => false

/-- Segments between dots, one after the other. -/
def locate (v : Json) (path : String) : Option Json :=
  ((path.toList.splitOn '.').map String.ofList).foldlM get v

end Json

end Dataglot
