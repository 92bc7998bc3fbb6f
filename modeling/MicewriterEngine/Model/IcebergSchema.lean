import MicewriterEngine.Model.FieldType

/-!
# Iceberg columns

What the engine registers in the catalog for its field definitions.
-/

namespace MicewriterEngine

inductive PrimitiveType
  | string
  | long
  | int
  | double
  | float
  | boolean
  | timestamptz
  | timestamp
  | date
  | binary
  deriving DecidableEq

/-- The Iceberg types that the engine uses. A list carries its element field. -/
inductive IcebergType
  | primitive (type : PrimitiveType)
  | list (elementId : ℤ) (elementName : String) (elementRequired : Bool) (element : IcebergType)
  deriving DecidableEq

/-- The Iceberg type, and the next field id, unbounded as for the Arrow types. -/
def MappedType.toIceberg : MappedType → ℤ → IcebergType × ℤ
  | .string, nextId => (.primitive .string, nextId)
  | .long, nextId => (.primitive .long, nextId)
  | .int, nextId => (.primitive .int, nextId)
  | .double, nextId => (.primitive .double, nextId)
  | .float, nextId => (.primitive .float, nextId)
  | .boolean, nextId => (.primitive .boolean, nextId)
  | .timestampTz, nextId => (.primitive .timestamptz, nextId)
  | .timestamp, nextId => (.primitive .timestamp, nextId)
  | .date, nextId => (.primitive .date, nextId)
  | .binary, nextId => (.primitive .binary, nextId)
  | .list inner, nextId =>
    let elementId := nextId
    let (innerType, nextId) := inner.toIceberg (nextId + 1)
    (.list elementId "element" false innerType, nextId)

structure NestedField where
  id : ℤ
  name : String
  required : Bool
  fieldType : IcebergType
  deriving DecidableEq

/-- The fields of the field definitions, where `nextId` is the next field id. A column takes its
own id before its type takes those of its elements. -/
def icebergFields : ℤ → List FieldDef → List NestedField
  | _, [] => []
  | nextId, f :: defs =>
    let fieldId := nextId
    let (fieldType, nextId) := (MappedType.fromStrOrString f.fieldType).toIceberg (nextId + 1)
    ⟨fieldId, f.name, f.required, fieldType⟩ :: icebergFields nextId defs

/-- The part of `build_iceberg_schema` before the builder of the client library. -/
def nestedFields (fieldDefs : List FieldDef) : List NestedField := icebergFields 1 fieldDefs

end MicewriterEngine
