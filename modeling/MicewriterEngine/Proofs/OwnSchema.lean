import MicewriterEngine.Model.GrpcServer
import MicewriterEngine.Proofs.Registration

/-!
# An engine and its own schema

`load_field_defs` and `validate_register_schema` read the same document, each with its own
defaults. The engine accepts its schema unless a default comes in between: for a missing
name, for a type that is not a string, or for the second of two elements of one name.
-/

namespace MicewriterEngine.Proofs

/-- The member of an element, when it is a string. -/
def given (field : Json) (key : String) : Option String := (field.get key).bind Json.asStr

/-- The element that defines the field of a name, the first one to give it. -/
def definingElement (fields : List Json) (name : String) : Option Json :=
  fields.find? (fun g => (given g "name").getD "unknown" == name)

/-- What an element gives as type is what the defining element gives, where a missing type is
unknown in the former and `string` in the latter. -/
def SameType (field defining : Json) : Prop :=
  match given field "type", given defining "type" with
  | some s, some t => MappedType.fromStr s = MappedType.fromStr t
  | some s, none => s = "string"
  | none, some t => MappedType.fromStr t = none
  | none, none => False

/-- No default of one reader meets another default of the other. -/
structure ReadAlike (fields : List Json) : Prop where
  named : ∀ f ∈ fields, given f "name" = none → ∃ g ∈ fields, given g "name" = some ""
  typed : ∀ f ∈ fields, ∀ g, definingElement fields ((given f "name").getD "") = some g → SameType f g

lemma asStr_index (field : Json) (key : String) : (field.index key).asStr = given field key := by
  unfold Json.index given
  cases field.get key with
  | none => rfl
  | some v => rfl

lemma name_loadFieldDef (field : Json) : (loadFieldDef field).name = (given field "name").getD "unknown" := by
  rw [loadFieldDef, asStr_index]

lemma fieldType_loadFieldDef (field : Json) :
    (loadFieldDef field).fieldType = (given field "type").getD "string" := by
  simp only [loadFieldDef, asStr_index]

lemma find?_loadFieldDef (fields : List Json) (name : String) :
    (fields.map loadFieldDef).find? (fun f => f.name == name) = (definingElement fields name).map loadFieldDef := by
  rw [List.find?_map, definingElement]
  simp only [Function.comp_def, name_loadFieldDef]

lemma sameType_iff {field defining : Json} :
    MappedType.fromStr (declaredType field) = MappedType.fromStr (loadFieldDef defining).fieldType ↔
      SameType field defining := by
  have hdeclared : declaredType field = (given field "type").getD "" := rfl
  have hempty : MappedType.fromStr "" = none := rfl
  have hstring : MappedType.fromStr "string" = some .string := rfl
  rw [hdeclared, fieldType_loadFieldDef, SameType]
  cases given field "type" with
  | some s =>
    cases given defining "type" with
    | some t => exact Iff.rfl
    | none =>
      rw [Option.getD_some, Option.getD_none, hstring]
      exact fromStr_eq_string
  | none =>
    cases given defining "type" with
    | some t =>
      rw [Option.getD_none, Option.getD_some, hempty]
      exact eq_comm
    | none =>
      rw [Option.getD_none, Option.getD_none, hempty, hstring]
      exact iff_of_false (by simp) id

/-- An element passes when the field it names is defined, and by an element of its type. -/
lemma validateField_loaded_ok_iff (engineTable : String) (fields : List Json) (field : Json) :
    validateField engineTable (fields.map loadFieldDef) field = .ok () ↔
      ∃ g, definingElement fields ((given field "name").getD "") = some g ∧ SameType field g := by
  have hname : declaredName field = (given field "name").getD "" := rfl
  unfold validateField
  dsimp only
  rw [find?_loadFieldDef, hname]
  cases definingElement fields ((given field "name").getD "") with
  | none => simp
  | some g =>
    simp only [Option.map_some, ← sameType_iff, Option.some.injEq, exists_eq_left']
    split
    · rename_i hne
      exact iff_of_false (by simp) hne
    · rename_i heq
      exact iff_of_true rfl (not_not.mp heq)

lemma validateRegisterSchema_own_ok_iff {incoming : Json} {engineTable : String} {fieldDefs : List FieldDef}
    {fields : List Json} (hfields : incoming.fields = some fields)
    (htable : incoming.get "table" = none ∨ incoming.get "table" = some (.string engineTable)) :
    validateRegisterSchema (.ok incoming) engineTable fieldDefs = .ok fields.length ↔
      ∀ field ∈ fields, validateField engineTable fieldDefs field = .ok () := by
  have hdeclared : validateRegisterSchema (.ok incoming) engineTable fieldDefs =
      validateRegisterSchema.validateDeclared engineTable fieldDefs incoming := by
    unfold validateRegisterSchema
    rcases htable with hnone | hsame
    · simp [hnone]
    · simp [hsame, Json.asStr]
  rw [hdeclared, validateRegisterSchema.validateDeclared, hfields]
  dsimp only
  constructor
  · intro h
    split at h
    · cases h
    · rename_i hall
      exact validateFields_ok_iff.mp hall
  · intro h
    rw [validateFields_ok_iff.mpr h]

/-- An element that gives a name is defined, if not by itself then by an earlier one. -/
lemma definingElement_ne_none {fields : List Json} {name : String} :
    definingElement fields name ≠ none ↔ ∃ g ∈ fields, (given g "name").getD "unknown" = name := by
  rw [definingElement, Ne, List.find?_eq_none]
  simp

/-- An engine accepts the schema that it was started with exactly when both readers of the
document read it alike. -/
theorem accepts_own_schema_iff {incoming : Json} {fields : List Json} {engineTable : String}
    (hfields : incoming.fields = some fields)
    (htable : incoming.get "table" = none ∨ incoming.get "table" = some (.string engineTable)) :
    validateRegisterSchema (.ok incoming) engineTable (loadFieldDefs incoming) = .ok fields.length ↔
      ReadAlike fields := by
  have hdefs : loadFieldDefs incoming = fields.map loadFieldDef := by
    rw [loadFieldDefs, hfields, Option.getD_some]
  rw [validateRegisterSchema_own_ok_iff hfields htable, hdefs]
  simp only [validateField_loaded_ok_iff]
  constructor
  · refine fun h => ⟨fun f hf hunnamed => ?_, fun f hf g hg => ?_⟩
    · obtain ⟨g, hg, -⟩ := h f hf
      rw [hunnamed, Option.getD_none] at hg
      have hname : (given g "name").getD "unknown" = "" := by
        have hfound := List.find?_some hg
        exact beq_iff_eq.mp hfound
      refine ⟨g, List.mem_of_find?_eq_some hg, ?_⟩
      cases hgiven : given g "name" with
      | none =>
        rw [hgiven] at hname
        exact absurd hname (by decide)
      | some name =>
        rw [hgiven, Option.getD_some] at hname
        rw [hname]
    · obtain ⟨other, hother, hsame⟩ := h f hf
      rw [hg, Option.some.injEq] at hother
      exact hother ▸ hsame
  · intro h field hfield
    have hdefined : definingElement fields ((given field "name").getD "") ≠ none := by
      rw [definingElement_ne_none]
      cases hname : given field "name" with
      | none =>
        obtain ⟨g, hg, hempty⟩ := h.named field hfield hname
        exact ⟨g, hg, by rw [hempty]; rfl⟩
      | some name => exact ⟨field, hfield, by rw [hname]; rfl⟩
    obtain ⟨g, hg⟩ := Option.ne_none_iff_exists'.mp hdefined
    exact ⟨g, hg, h.typed field hfield g hg⟩

/-- Two elements that give one name, under two spellings of one type. -/
def aliasElements : List Json :=
  [.object [("name", .string "ts"), ("type", .string "long")],
    .object [("name", .string "ts"), ("type", .string "int64")]]

def aliasSchema : Json := .object [("fields", .array aliasElements)]

theorem accepts_own_schema_aliases :
    validateRegisterSchema (.ok aliasSchema) "telemetry_events" (loadFieldDefs aliasSchema) = .ok 2 := by
  have hsame : MappedType.fromStr "int64" = MappedType.fromStr "long" := by decide
  have halike : ReadAlike aliasElements := by
    refine ⟨fun f hf hunnamed => ?_, fun f hf g hg => ?_⟩
    · simp only [aliasElements, List.mem_cons, List.not_mem_nil, or_false] at hf
      rcases hf with rfl | rfl <;> cases hunnamed
    · simp only [aliasElements, List.mem_cons, List.not_mem_nil, or_false] at hf
      rcases hf with rfl | rfl <;> cases hg
      · exact rfl
      · exact hsame
  have hfields : aliasSchema.fields = some aliasElements := rfl
  have htable : aliasSchema.get "table" = none := by decide
  exact (accepts_own_schema_iff hfields (Or.inl htable)).mpr halike

/-- A list object is a type of the schema format, and an engine with one refuses its own schema. -/
theorem list_object_refused :
    ¬∀ (incoming : Json) (fields : List Json) (engineTable : String), incoming.fields = some fields →
      (incoming.get "table" = none ∨ incoming.get "table" = some (.string engineTable)) →
      validateRegisterSchema (.ok incoming) engineTable (loadFieldDefs incoming) = .ok fields.length := by
  intro h
  have hown := h (.object [("fields", .array [.object [("name", .string "tags"),
    ("type", .object [("type", .string "list"), ("element", .string "string")])]])]) _ "telemetry_events" rfl
    (Or.inl rfl)
  exact absurd hown (by decide)

end MicewriterEngine.Proofs
