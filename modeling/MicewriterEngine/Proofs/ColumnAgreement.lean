import Mathlib
import MicewriterEngine.Model.IcebergSchema

/-!
# Arrow columns and Iceberg columns

The schema for the Parquet writer and the schema in the catalog come from the same field
definitions. They agree in everything but the ids of list elements: only one of the two
counters also counts the columns.
-/

namespace MicewriterEngine.Proofs

/-- The types correspond, constructor by constructor. -/
def Corresponds : DataType → IcebergType → Prop
  | .utf8, .primitive .string => True
  | .int64, .primitive .long => True
  | .int32, .primitive .int => True
  | .float64, .primitive .double => True
  | .float32, .primitive .float => True
  | .boolean, .primitive .boolean => True
  | .timestamp .microsecond (some "+00:00"), .primitive .timestamptz => True
  | .timestamp .microsecond none, .primitive .timestamp => True
  | .date32, .primitive .date => True
  | .binary, .primitive .binary => True
  | .list _ item itemNullable _, .list _ _ elementRequired element =>
    itemNullable = !elementRequired ∧ Corresponds item element
  | _, _ => False

/-- At every depth the metadata of the Arrow element names the id of the Iceberg element. -/
def ElementIdsAgree : DataType → IcebergType → Prop
  | .list _ item _ metadata, .list elementId _ _ element =>
    metadata.lookup "PARQUET:field_id" = some (toString elementId) ∧ ElementIdsAgree item element
  | _, _ => True

structure ColumnAgrees (column : ArrowField) (field : NestedField) : Prop where
  name : column.name = field.name
  nullable : column.nullable = !field.required
  type : Corresponds column.dataType field.fieldType
  elementIds : ElementIdsAgree column.dataType field.fieldType

def IsList (t : MappedType) : Prop := ∃ inner, t = .list inner

lemma corresponds_mapped (t : MappedType) (a b : ℤ) : Corresponds (t.toArrow a).1 (t.toIceberg b).1 := by
  induction t generalizing a b with
  | list inner ih => exact ⟨rfl, ih (a + 1) (b + 1)⟩
  | _ => trivial

/-- Both conversions take the same number of ids. -/
lemma ids_taken (t : MappedType) (a b : ℤ) : (t.toArrow a).2 - a = (t.toIceberg b).2 - b := by
  induction t generalizing a b with
  | list inner ih =>
    have hinner := ih (a + 1) (b + 1)
    simp only [MappedType.toArrow, MappedType.toIceberg]
    linarith
  | _ => simp [MappedType.toArrow, MappedType.toIceberg]

/-- With different counters the ids of the outermost element differ already. -/
lemma elementIdsAgree_iff {t : MappedType} {a b : ℤ} (hne : a ≠ b) :
    ElementIdsAgree (t.toArrow a).1 (t.toIceberg b).1 ↔ ¬IsList t := by
  cases t with
  | list inner =>
    refine iff_of_false ?_ (not_not_intro ⟨inner, rfl⟩)
    rintro ⟨hid, -⟩
    have hrepr : Int.repr a = Int.repr b := Option.some.inj hid
    exact hne (Int.repr_injective hrepr)
  | _ => exact iff_of_true trivial (by rintro ⟨inner, hinner⟩; cases hinner)

/-- Columns at different counters agree exactly when they have no lists. -/
lemma columns_agree_iff {fieldDefs : List FieldDef} {a b : ℤ} (hle : a ≤ b) :
    List.Forall₂ ColumnAgrees (arrowFields a fieldDefs) (icebergFields b fieldDefs) ↔
      ∀ f ∈ fieldDefs, ¬IsList (MappedType.fromStrOrString f.fieldType) := by
  induction fieldDefs generalizing a b with
  | nil => simp [arrowFields, icebergFields]
  | cons f fieldDefs ih =>
    let t := MappedType.fromStrOrString f.fieldType
    have htaken := ids_taken t a (b + 1)
    have hnext : (t.toArrow a).2 ≤ (t.toIceberg (b + 1)).2 := by linarith
    rw [List.forall_mem_cons, ← ih hnext, arrowFields, icebergFields, List.forall₂_cons]
    refine and_congr_left' ?_
    have hids : ElementIdsAgree (t.toArrow a).1 (t.toIceberg (b + 1)).1 ↔ ¬IsList t :=
      elementIdsAgree_iff (by linarith)
    constructor
    · exact fun hagrees => hids.mp hagrees.elementIds
    · exact fun hlist => ⟨rfl, rfl, corresponds_mapped t a (b + 1), hids.mpr hlist⟩

/-- The two schemas agree column by column exactly when no column is a list. -/
theorem columns_agree_iff_no_list (fieldDefs : List FieldDef) :
    List.Forall₂ ColumnAgrees (fieldDefsToArrowSchema fieldDefs) (nestedFields fieldDefs) ↔
      ∀ f ∈ fieldDefs, ¬IsList (MappedType.fromStrOrString f.fieldType) :=
  columns_agree_iff le_rfl

/-- The element of a list in the first column has id 1 in Arrow and id 2 in Iceberg. -/
theorem list_column_disagrees :
    ¬∀ fieldDefs : List FieldDef,
      List.Forall₂ ColumnAgrees (fieldDefsToArrowSchema fieldDefs) (nestedFields fieldDefs) := by
  intro h
  cases h [⟨"tags", "list(string)", false⟩] with
  | cons hagrees _ =>
    have hid : some "1" = some "2" := hagrees.elementIds.1
    exact absurd hid (by decide)

end MicewriterEngine.Proofs
