import Mathlib.Data.List.Basic

/-!
# JSON values

A parsed document with the accessors that the schema code uses. A parser keeps one member
for each key of an object; here the first member with a key is the one that counts.
-/

namespace MicewriterEngine

inductive Json
  | null
  | bool (b : Bool)
  | number (literal : String)
  | string (s : String)
  | array (items : List Json)
  | object (members : List (String × Json))

namespace Json

def asStr : Json → Option String
  | .string s => some s
  | _ => none

def asBool : Json → Option Bool
  | .bool b => some b
  | _ => none

def asArray : Json → Option (List Json)
  | .array items => some items
  | _ => none

def asObject : Json → Option (List (String × Json))
  | .object members => some members
  | _ => none

/-- `value.get(key)`. -/
def get (v : Json) (key : String) : Option Json := v.asObject.bind (·.lookup key)

/-- `value[key]`, which is null where there is no such member. -/
def index (v : Json) (key : String) : Json := (v.get key).getD .null

def fields (schema : Json) : Option (List Json) := (schema.get "fields").bind asArray

end Json

end MicewriterEngine
