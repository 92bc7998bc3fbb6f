import Mathlib.Data.Int.Notation
import Mathlib.Data.List.Basic
import MicewriterEngine.Lib.Utf8

/-!
# Field types and their Arrow columns

`MappedType` is what the engine makes of the type string in a field definition.
-/

namespace MicewriterEngine

structure FieldDef where
  name : String
  fieldType : String
  required : Bool
  deriving DecidableEq

inductive MappedType
  | string
  | long
  | int
  | double
  | float
  | boolean
  | timestampTz
  | timestamp
  | date
  | binary
  | list (inner : MappedType)
  deriving DecidableEq

namespace MappedType

def primitive : String → Option MappedType
  | "string" => some .string
  | "long" | "int64" => some .long
  | "int" | "int32" => some .int
  | "double" | "float64" => some .double
  | "float" | "float32" => some .float
  | "boolean" => some .boolean
  | "timestamptz" => some .timestampTz
  | "timestamp" => some .timestamp
  | "date" => some .date
  | "binary" | "bytes" => some .binary
  | _ => none

/-- The guard of the list arm, `s.starts_with("list(") && s.ends_with(")")`. -/
def hasListForm (s : String) : Bool := "list(".toList.isPrefixOf s.toList && ")".toList.isSuffixOf s.toList

/-- What stands between `list(` and a closing parenthesis at the end. -/
def listInner (s : String) : Option String :=
  if hasListForm s then some (String.ofList ((s.toList.drop 5).dropLast)) else none

/-- The slice of the list arm, `&s[5..s.len() - 1]`, none where it would panic. -/
def listSlice (s : String) : Option String := Lib.sliceBytes 5 (s.utf8ByteSize - 1) s

/-- `from_str` with a bound on the nesting of lists. -/
def fromStrFuel : ℕ → String → Option MappedType
  | 0, _ => none
  | fuel + 1, s =>
    match primitive s with
    | some t => some t
    | none =>
      match listInner s with
      | some inner => (fromStrFuel fuel inner).map .list
      | none => none

/-- Parse a type string. Each list takes six characters, so its length bounds the nesting. -/
def fromStr (s : String) : Option MappedType := fromStrFuel (s.length + 1) s

def fromStrOrString (s : String) : MappedType := (fromStr s).getD .string

lemma length_listInner {s inner : String} (h : listInner s = some inner) : inner.length < s.length := by
  unfold listInner at h
  split at h
  · rename_i hlist
    cases h
    rw [hasListForm, Bool.and_eq_true] at hlist
    have hprefix := List.isPrefixOf_iff_prefix.mp hlist.1
    have hlen := hprefix.length_le
    have hfive : "list(".toList.length = 5 := rfl
    rw [String.length_ofList, ← String.length_toList]
    rw [List.length_dropLast, List.length_drop]
    omega
  · cases h

lemma fromStrFuel_eq {fuel : ℕ} {s : String} (h : s.length < fuel) : fromStrFuel fuel s = fromStr s := by
  have hall : ∀ a b (s : String), s.length < a → s.length < b → fromStrFuel a s = fromStrFuel b s := by
    intro a
    induction a with
    | zero => intro b s ha; omega
    | succ a ih =>
      intro b s ha hb
      cases b with
      | zero => omega
      | succ b =>
        unfold fromStrFuel
        cases primitive s with
        | some t => rfl
        | none =>
          dsimp only
          cases hinner : listInner s with
          | none => rfl
          | some inner =>
            have hlen := length_listInner hinner
            dsimp only
            rw [ih b inner (by omega) (by omega)]
  exact hall fuel (s.length + 1) s h (Nat.lt_succ_self _)

/-- The arms of `from_str`. -/
theorem fromStr_eq (s : String) :
    fromStr s = match primitive s with
      | some t => some t
      | none =>
        match listInner s with
        | some inner => (fromStr inner).map .list
        | none => none := by
  rw [fromStr, fromStrFuel]
  cases primitive s with
  | some t => rfl
  | none =>
    dsimp only
    cases hinner : listInner s with
    | none => rfl
    | some inner =>
      dsimp only
      rw [fromStrFuel_eq (length_listInner hinner)]

end MappedType

/-! ### Arrow columns -/

inductive TimeUnit
  | second
  | millisecond
  | microsecond
  | nanosecond
  deriving DecidableEq

/-- The Arrow data types that the engine uses. A list carries its element field. -/
inductive DataType
  | utf8
  | int64
  | int32
  | float64
  | float32
  | boolean
  | timestamp (unit : TimeUnit) (timezone : Option String)
  | date32
  | binary
  | list (itemName : String) (item : DataType) (itemNullable : Bool) (metadata : List (String × String))
  deriving DecidableEq

/-- The Arrow type, and the next field id. The ids are unbounded here and `i32` in the source, which is the
same as long as fewer than 2 ^ 31 of them are taken. -/
def MappedType.toArrow : MappedType → ℤ → DataType × ℤ
  | .string, nextId => (.utf8, nextId)
  | .long, nextId => (.int64, nextId)
  | .int, nextId => (.int32, nextId)
  | .double, nextId => (.float64, nextId)
  | .float, nextId => (.float32, nextId)
  | .boolean, nextId => (.boolean, nextId)
  | .timestampTz, nextId => (.timestamp .microsecond (some "+00:00"), nextId)
  | .timestamp, nextId => (.timestamp .microsecond none, nextId)
  | .date, nextId => (.date32, nextId)
  | .binary, nextId => (.binary, nextId)
  | .list inner, nextId =>
    let elementId := nextId
    let (innerType, nextId) := inner.toArrow (nextId + 1)
    (.list "item" innerType true [("PARQUET:field_id", toString elementId)], nextId)

structure ArrowField where
  name : String
  dataType : DataType
  nullable : Bool

/-- The columns of the field definitions, where `nextId` is the next field id. -/
def arrowFields : ℤ → List FieldDef → List ArrowField
  | _, [] => []
  | nextId, f :: defs =>
    let (dataType, nextId) := (MappedType.fromStrOrString f.fieldType).toArrow nextId
    ⟨f.name, dataType, !f.required⟩ :: arrowFields nextId defs

def fieldDefsToArrowSchema (fieldDefs : List FieldDef) : List ArrowField := arrowFields 1 fieldDefs

end MicewriterEngine
