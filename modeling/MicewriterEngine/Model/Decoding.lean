import Mathlib.Algebra.Group.Int.Defs
import MicewriterEngine.Model.SchemaFile

/-!
# Decoding a record into the generated struct

The derived decoder of the generated struct, applied to a CBOR map with text keys, as far
as records with values of the declared types need it. Left out are byte strings that are
read as lists, the limits of `ciborium` on nesting and on the length of an unknown key, and
tags. The exact contents of floats play no part in whether a record decodes.
-/

namespace MicewriterEngine

inductive CborValue
  | null
  | bool (b : Bool)
  | integer (n : ℤ)
  | float (bits : UInt64)
  | text (s : String)
  | bytes (b : List UInt8)
  | array (items : List CborValue)
  | map (entries : List (CborValue × CborValue))

/-- A value of a generated type. An `f32` is shown by the float it was rounded from. -/
inductive RustValue
  | string (s : String)
  | i64 (n : ℤ)
  | i32 (n : ℤ)
  | bool (b : Bool)
  | f32 (bits : UInt64)
  | f64 (bits : UInt64)
  | vec (items : List RustValue)
  | value (v : CborValue)
  | none
  | some (v : RustValue)

inductive DecodeError
  | invalidType (field : String)
  | duplicateField (field : String)
  | missingField (field : String)

def decodeValue : RustType → CborValue → Option RustValue
  | .string, .text s => some (.string s)
  | .i64, .integer n => if -2 ^ 63 ≤ n ∧ n < 2 ^ 63 then some (.i64 n) else none
  | .i32, .integer n => if -2 ^ 31 ≤ n ∧ n < 2 ^ 31 then some (.i32 n) else none
  | .bool, .bool b => some (.bool b)
  | .f32, .float bits => some (.f32 bits)
  | .f64, .float bits => some (.f64 bits)
  | .vec elem, .array items => (items.mapM (decodeValue elem)).map .vec
  | .value, v => some (.value v)
  | .option _, .null => some .none
  | .option inner, v => (decodeValue inner v).map .some
  | _, _ => none

/-- Read the entries of the map in order. Unknown fields are ignored. -/
def decodeEntries (fields : List RustField) :
    List (String × RustValue) → List (String × CborValue) → Except DecodeError (List (String × RustValue))
  | found, [] => .ok found
  | found, (key, v) :: entries =>
    match fields.find? (fun f => f.name == key) with
    | none => decodeEntries fields found entries
    | some f =>
      if key ∈ found.map Prod.fst then .error (.duplicateField key)
      else
        match decodeValue f.type v with
        | none => .error (.invalidType key)
        | some value => decodeEntries fields (found ++ [(key, value)]) entries

/-- The value of a field after all entries were read. A missing optional field is `None`. -/
def finishField (found : List (String × RustValue)) (f : RustField) : Except DecodeError RustValue :=
  match found.lookup f.name with
  | some value => .ok value
  | none =>
    match f.type with
    | .option _ => .ok .none
    | _ => .error (.missingField f.name)

def decodeStruct (s : RustStruct) (record : List (String × CborValue)) : Except DecodeError (List RustValue) :=
  match decodeEntries s.fields [] record with
  | .error e => .error e
  | .ok found => s.fields.mapM (finishField found)

end MicewriterEngine
