import Mathlib.Tactic.Tauto
import MicewriterEngine.Model.SchemaFile

/-!
# The generated struct and the Arrow columns

The build script and the engine read a schema file independently. Their results agree on
a field exactly when its type is spelled in a way that both understand alike.
-/

namespace MicewriterEngine.Proofs

/-- A Rust type and an Arrow type denote the same type. -/
def Denotes : RustType → DataType → Prop
  | .string, .utf8 => True
  | .i64, .int64 => True
  | .i32, .int32 => True
  | .bool, .boolean => True
  | .f32, .float32 => True
  | .f64, .float64 => True
  | .vec elem, .list _ item _ _ => Denotes elem item
  | _, _ => False

/-- A struct field and a column have one name and one type, which is optional in the struct
exactly when the column is nullable. -/
structure FieldAgrees (f : RustField) (column : ArrowField) : Prop where
  name : f.name = column.name
  type : ∃ inner, f.type = (if column.nullable then .option inner else inner) ∧ Denotes inner column.dataType

/-- The spellings of a type that build time and run time map alike. -/
def sharedSpellings : List String := ["string", "long", "int", "boolean", "float", "double"]

/-- The type of a field is no object, and a string only if it is a shared spelling or not the
spelling of any type. -/
def SpelledAlike (typeVal : Json) : Prop :=
  typeVal.asObject = none ∧
    ∀ s, typeVal.asStr = some s → s ∈ sharedSpellings ∨ MappedType.fromStr s = none

lemma denotes_string {d : DataType} : Denotes .string d ↔ d = .utf8 := by
  cases d <;> simp [Denotes]

lemma toArrow_eq_utf8 {t : MappedType} {nextId : ℤ} : (t.toArrow nextId).1 = .utf8 ↔ t = .string := by
  cases t <;> simp [MappedType.toArrow]

lemma primitive_eq_string {s : String} : MappedType.primitive s = some .string ↔ s = "string" := by
  unfold MappedType.primitive
  split <;> simp_all

lemma fromStr_eq_string {s : String} : MappedType.fromStr s = some .string ↔ s = "string" := by
  rw [MappedType.fromStr_eq, ← primitive_eq_string]
  cases MappedType.primitive s with
  | some t => rfl
  | none =>
    cases MappedType.listInner s with
    | none => rfl
    | some inner => simp

lemma parseTypeStr_of_notMem {s : String} (h : s ∉ sharedSpellings) : parseTypeStr s = .string := by
  unfold parseTypeStr
  split <;> simp_all [sharedSpellings]

/-- A type given as a string has one meaning on both sides exactly when it is spelled alike. -/
lemma denotes_parseTypeStr {s : String} {nextId : ℤ} :
    Denotes (parseTypeStr s) ((MappedType.fromStrOrString s).toArrow nextId).1 ↔
      s ∈ sharedSpellings ∨ MappedType.fromStr s = none := by
  by_cases hs : s ∈ sharedSpellings
  · refine iff_of_true ?_ (Or.inl hs)
    simp only [sharedSpellings, List.mem_cons, List.not_mem_nil, or_false] at hs
    rcases hs with rfl | rfl | rfl | rfl | rfl | rfl <;> trivial
  · rw [parseTypeStr_of_notMem hs, denotes_string, toArrow_eq_utf8, MappedType.fromStrOrString]
    have hne : MappedType.fromStr s ≠ some .string := fun heq =>
      hs (fromStr_eq_string.mp heq ▸ List.mem_cons_self)
    cases hmapped : MappedType.fromStr s with
    | none => simp
    | some t =>
      rw [hmapped] at hne
      simp only [Option.getD_some, hs, false_or, reduceCtorEq, iff_false]
      exact fun heq => hne (congrArg some heq)

lemma not_denotes_object {members : List (String × Json)} {t : RustType}
    (h : parseType (.object members) = some t) : ¬Denotes t .utf8 := by
  rw [parseType] at h
  split at h
  · obtain ⟨elem, -, rfl⟩ := Option.map_eq_some_iff.mp h
    simp [Denotes]
  · cases h
    simp [Denotes]

/-- The same for every type that a schema file can give. -/
theorem denotes_parseType {typeVal : Json} (nextId : ℤ) :
    (∃ t, parseType typeVal = some t ∧
      Denotes t ((MappedType.fromStrOrString (typeVal.asStr.getD "string")).toArrow nextId).1) ↔
      SpelledAlike typeVal := by
  have hdefault : ∀ nextId, ((MappedType.fromStrOrString "string").toArrow nextId).1 = .utf8 := fun _ => rfl
  cases typeVal with
  | string s =>
    simp only [parseType, Option.some.injEq, exists_eq_left', Json.asStr, Option.getD_some,
      denotes_parseTypeStr, SpelledAlike, Json.asObject, true_and, forall_eq']
  | object members =>
    refine iff_of_false ?_ (fun h => nomatch h.1)
    rintro ⟨t, ht, hdenotes⟩
    have hnone : (Json.object members).asStr = none := rfl
    rw [hnone, Option.getD_none, hdefault] at hdenotes
    exact not_denotes_object ht hdenotes
  | null | bool b | number literal | array items =>
    simp [parseType, Json.asStr, hdefault, Denotes, SpelledAlike, Json.asObject]

lemma generateField_agrees {field : Json} (nextId : ℤ) :
    (∃ f, generateField field = some f ∧ FieldAgrees f ⟨(loadFieldDef field).name,
      ((MappedType.fromStrOrString (loadFieldDef field).fieldType).toArrow nextId).1,
      !(loadFieldDef field).required⟩) ↔ SpelledAlike (field.index "type") := by
  rw [← denotes_parseType nextId]
  constructor
  · rintro ⟨f, hf, hname, inner, htype, hdenotes⟩
    obtain ⟨t, ht, rfl⟩ := Option.map_eq_some_iff.mp hf
    refine ⟨t, ht, ?_⟩
    cases hreq : (field.index "required").asBool.getD false with
    | true =>
      simp only [hreq, loadFieldDef, Bool.not_true, ite_true, ite_false, Bool.false_eq_true] at htype
      rw [htype]
      exact hdenotes
    | false =>
      simp only [hreq, loadFieldDef, Bool.not_false, ite_true, ite_false, Bool.false_eq_true,
        RustType.option.injEq] at htype
      rw [htype]
      exact hdenotes
  · rintro ⟨t, ht, hdenotes⟩
    rw [generateField, ht]
    refine ⟨_, rfl, rfl, t, ?_, hdenotes⟩
    cases hreq : (field.index "required").asBool.getD false <;> simp [loadFieldDef, hreq]

lemma fields_agree {fields : List Json} (nextId : ℤ) :
    (∃ fs, fields.mapM generateField = some fs ∧
      List.Forall₂ FieldAgrees fs (arrowFields nextId (fields.map loadFieldDef))) ↔
      ∀ field ∈ fields, SpelledAlike (field.index "type") := by
  induction fields generalizing nextId with
  | nil => simp [arrowFields]
  | cons field fields ih =>
    rw [List.forall_mem_cons, ← generateField_agrees nextId,
      ← ih ((MappedType.fromStrOrString (loadFieldDef field).fieldType).toArrow nextId).2]
    simp only [List.mapM_cons, List.map_cons, arrowFields, Option.bind_eq_bind, Option.pure_def]
    constructor
    · rintro ⟨fs, hfs, hall⟩
      obtain ⟨f, hf, hfs⟩ := Option.bind_eq_some_iff.mp hfs
      obtain ⟨rest, hrest, heq⟩ := Option.bind_eq_some_iff.mp hfs
      cases heq
      rw [List.forall₂_cons] at hall
      exact ⟨⟨f, hf, hall.1⟩, ⟨rest, hrest, hall.2⟩⟩
    · rintro ⟨⟨f, hf, hagrees⟩, ⟨rest, hrest, hall⟩⟩
      exact ⟨f :: rest, by rw [hf, Option.bind_some, hrest, Option.bind_some], .cons hagrees hall⟩

/-- The struct that the build emits for a schema and the columns that the engine makes of it
agree in names, order and types exactly when every type in it is spelled alike. -/
theorem schema_agrees_iff (name : String) (schema : Json) :
    (∃ s, generateStruct name schema = some s ∧
      List.Forall₂ FieldAgrees s.fields (fieldDefsToArrowSchema (loadFieldDefs schema))) ↔
      ∀ field ∈ schema.fields.getD [], SpelledAlike (field.index "type") := by
  rw [← fields_agree 1, generateStruct]
  constructor
  · rintro ⟨s, hs, hall⟩
    obtain ⟨fs, hfs, rfl⟩ := Option.map_eq_some_iff.mp hs
    exact ⟨fs, hfs, hall⟩
  · rintro ⟨fs, hfs, hall⟩
    exact ⟨⟨name, fs⟩, by rw [hfs, Option.map_some], hall⟩

/-- A timestamp is a string in the struct and a timestamp in its column. -/
theorem timestamp_schema_disagrees :
    ¬∀ (name : String) (schema : Json), ∃ s, generateStruct name schema = some s ∧
      List.Forall₂ FieldAgrees s.fields (fieldDefsToArrowSchema (loadFieldDefs schema)) := by
  intro h
  obtain ⟨s, hs, hall⟩ := h "TelemetryEvents" (.object [("fields", .array
    [.object [("name", .string "occurred_at"), ("type", .string "timestamptz"), ("required", .bool true)]])])
  cases hs
  cases hall with
  | cons hagrees _ =>
    obtain ⟨inner, htype, hdenotes⟩ := hagrees.type
    have hinner : inner = .string := htype.symm
    subst hinner
    exact hdenotes

end MicewriterEngine.Proofs
