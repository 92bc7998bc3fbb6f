import MicewriterEngine.Model.FieldType
import MicewriterEngine.Model.Json

/-!
# The two readers of a schema file

At build time `generate_struct` turns a schema document into a Rust struct. At start-up
`load_field_defs` turns the same document into field definitions.
-/

namespace MicewriterEngine

/-- The Rust types that the build script emits. -/
inductive RustType
  | string
  | i64
  | i32
  | bool
  | f32
  | f64
  | vec (elem : RustType)
  | value
  | option (inner : RustType)
  deriving DecidableEq

def RustType.text : RustType → String
  | .string => "String"
  | .i64 => "i64"
  | .i32 => "i32"
  | .bool => "bool"
  | .f32 => "f32"
  | .f64 => "f64"
  | .vec elem => s!"Vec<{elem.text}>"
  | .value => "serde_json::Value"
  | .option inner => s!"Option<{inner.text}>"

/-- The arms of `parse_type` for a type given as a string. -/
def parseTypeStr : String → RustType
  | "string" => .string
  | "long" => .i64
  | "int" => .i32
  | "boolean" => .bool
  | "float" => .f32
  | "double" => .f64
  | _ => .string

mutual

/-- `parse_type`. There is no result where the build script panics, on a list without element. -/
def parseType : Json → Option RustType
  | .string s => some (parseTypeStr s)
  | .object members =>
    if (members.lookup "type").bind Json.asStr = some "list" then (parseElement members).map .vec
    else some .value
  | _ => some .string

/-- The type of the `element` member. -/
def parseElement : List (String × Json) → Option RustType
  | [] => none
  | (key, v) :: members => if key = "element" then parseType v else parseElement members

end

structure RustField where
  name : String
  type : RustType

structure RustStruct where
  name : String
  fields : List RustField

def RustStruct.text (s : RustStruct) : String :=
  s!"#[derive(Debug, Clone, Serialize, Deserialize)]\npub struct {s.name} \x7b\n" ++
    String.join (s.fields.map (fun f => s!"    pub {f.name}: {f.type.text},\n")) ++ "\x7d\n\n"

/-- One turn of the loop in `generate_struct`. -/
def generateField (field : Json) : Option RustField :=
  let fieldName := (field.index "name").asStr.getD "unknown"
  let required := (field.index "required").asBool.getD false
  (parseType (field.index "type")).map fun fieldType =>
    ⟨fieldName, if required then fieldType else .option fieldType⟩

def generateStruct (name : String) (schema : Json) : Option RustStruct :=
  ((schema.fields.getD []).mapM generateField).map fun fields => ⟨name, fields⟩

/-! ### Start-up -/

/-- One turn of the loop in `load_field_defs`. -/
def loadFieldDef (field : Json) : FieldDef where
  name := (field.index "name").asStr.getD "unknown"
  fieldType := (field.index "type").asStr.getD "string"
  required := (field.index "required").asBool.getD false

def loadFieldDefs (schema : Json) : List FieldDef := (schema.fields.getD []).map loadFieldDef

end MicewriterEngine
