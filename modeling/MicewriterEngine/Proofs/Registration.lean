import MicewriterEngine.Lib.Traversal
import MicewriterEngine.Model.Decoding
import MicewriterEngine.Model.GrpcServer
import MicewriterEngine.Proofs.SchemaAgreement

/-!
# Registered records decode

An accepted registration names fields of the engine with the types of the engine. It says
nothing about the fields that the engine requires, so a record of the registered schema
decodes when the registration requires these as well.
-/

namespace MicewriterEngine.Proofs
open Lib

/-- A CBOR value of a declared type. -/
def HasType : MappedType → CborValue → Prop
  | .string, .text _ => True
  | .long, .integer n => -2 ^ 63 ≤ n ∧ n < 2 ^ 63
  | .int, .integer n => -2 ^ 31 ≤ n ∧ n < 2 ^ 31
  | .boolean, .bool _ => True
  | .float, .float _ => True
  | .double, .float _ => True
  | .timestampTz, .integer n => -2 ^ 63 ≤ n ∧ n < 2 ^ 63
  | .timestamp, .integer n => -2 ^ 63 ≤ n ∧ n < 2 ^ 63
  | .date, .integer n => -2 ^ 31 ≤ n ∧ n < 2 ^ 31
  | .binary, .bytes _ => True
  | .list inner, .array items => ∀ v ∈ items, HasType inner v
  | _, _ => False

def declaredRequired (field : Json) : Bool := ((field.get "required").bind Json.asBool).getD false

/-- A record carries declared fields with values of the declared types, each once, and all that
are declared as required. -/
structure Conforms (registration : Json) (record : List (String × CborValue)) : Prop where
  nodup : (record.map Prod.fst).Nodup
  declared : ∀ entry ∈ record, ∃ d ∈ registration.fields.getD [], declaredName d = entry.1 ∧
    ∃ t, MappedType.fromStr (declaredType d) = some t ∧ HasType t entry.2
  required : ∀ d ∈ registration.fields.getD [], declaredRequired d = true →
    declaredName d ∈ record.map Prod.fst

lemma decodeValue_of_hasType {spelling : String} {t : MappedType} {v : CborValue}
    (hspelling : spelling ∈ sharedSpellings) (ht : MappedType.fromStr spelling = some t) (hv : HasType t v) :
    v ≠ .null ∧ (decodeValue (parseTypeStr spelling) v).isSome := by
  simp only [sharedSpellings, List.mem_cons, List.not_mem_nil, or_false] at hspelling
  rcases hspelling with rfl | rfl | rfl | rfl | rfl | rfl <;> cases ht <;> cases v <;>
    simp_all [HasType, parseTypeStr, decodeValue]

lemma decodeValue_option {t : RustType} {v : CborValue} (hnull : v ≠ .null)
    (hv : (decodeValue t v).isSome) : (decodeValue (.option t) v).isSome := by
  cases v with
  | null => exact absurd rfl hnull
  | _ => simpa [decodeValue] using hv

/-- Every declared field is one of the engine's and has its type. -/
theorem validateRegisterSchema_ok {registration : Json} {engineTable : String} {fieldDefs : List FieldDef}
    {n : ℕ} (h : validateRegisterSchema (.ok registration) engineTable fieldDefs = .ok n) :
    ∀ d ∈ registration.fields.getD [], ∃ aot ∈ fieldDefs, aot.name = declaredName d ∧
      MappedType.fromStr (declaredType d) = MappedType.fromStr aot.fieldType := by
  have hdeclared : validateRegisterSchema.validateDeclared engineTable fieldDefs registration = .ok n := by
    unfold validateRegisterSchema at h
    dsimp only at h
    split at h
    · split at h
      · cases h
      · exact h
    · exact h
  unfold validateRegisterSchema.validateDeclared at hdeclared
  split at hdeclared
  · cases hdeclared
  · rename_i fields hfields
    split at hdeclared
    · cases hdeclared
    · rename_i hall
      rw [hfields, Option.getD_some]
      intro d hd
      have hfield := validateFields_ok_iff.mp hall d hd
      unfold validateField at hfield
      dsimp only at hfield
      split at hfield
      · cases hfield
      · rename_i aot haot
        split at hfield
        · cases hfield
        · rename_i htype
          have hname := List.find?_some haot
          exact ⟨aot, List.mem_of_find?_eq_some haot, beq_iff_eq.mp hname, not_not.mp htype⟩

lemma fst_mem_append {found : List (String × RustValue)} {key name : String} {value : RustValue} :
    name ∈ (found ++ [(key, value)]).map Prod.fst ↔ name ∈ found.map Prod.fst ∨ name = key := by
  simp

lemma decodeEntries_ok {fields : List RustField} {record : List (String × CborValue)}
    (found : List (String × RustValue)) (hnodup : (record.map Prod.fst).Nodup)
    (hnew : ∀ key ∈ record.map Prod.fst, key ∉ found.map Prod.fst)
    (hdecode : ∀ entry ∈ record, ∀ f, fields.find? (fun f => f.name == entry.1) = some f →
      (decodeValue f.type entry.2).isSome) :
    ∃ all, decodeEntries fields found record = .ok all ∧
      (∀ key ∈ found.map Prod.fst, key ∈ all.map Prod.fst) ∧
      ∀ key ∈ record.map Prod.fst, (∃ f ∈ fields, f.name = key) → key ∈ all.map Prod.fst := by
  induction record generalizing found with
  | nil => exact ⟨found, rfl, fun _ h => h, fun _ h => nomatch h⟩
  | cons entry record ih =>
    obtain ⟨key, v⟩ := entry
    rw [List.map_cons, List.nodup_cons] at hnodup
    rw [List.map_cons, List.forall_mem_cons] at hnew
    rw [List.forall_mem_cons] at hdecode
    rw [decodeEntries]
    cases hfind : fields.find? (fun f => f.name == key) with
    | none =>
      obtain ⟨all, hall, hfound, hrest⟩ := ih found hnodup.2 hnew.2 hdecode.2
      refine ⟨all, hall, hfound, ?_⟩
      rw [List.map_cons, List.forall_mem_cons]
      refine ⟨?_, hrest⟩
      rintro ⟨f, hf, hname⟩
      have hne := List.find?_eq_none.mp hfind f hf
      exact absurd (beq_iff_eq.mpr hname) hne
    | some f =>
      obtain ⟨value, hvalue⟩ := Option.isSome_iff_exists.mp (hdecode.1 f hfind)
      dsimp only
      rw [if_neg hnew.1, hvalue]
      dsimp only
      obtain ⟨all, hall, hfound, hrest⟩ := ih (found ++ [(key, value)]) hnodup.2 (by
        intro other hother
        rw [fst_mem_append]
        rintro (hmem | rfl)
        · exact hnew.2 other hother hmem
        · exact hnodup.1 hother) hdecode.2
      refine ⟨all, hall, fun other hother => hfound other (fst_mem_append.mpr (Or.inl hother)), ?_⟩
      rw [List.map_cons, List.forall_mem_cons]
      exact ⟨fun _ => hfound key (fst_mem_append.mpr (Or.inr rfl)), hrest⟩

lemma finishField_ok {found : List (String × RustValue)} {f : RustField}
    (h : f.name ∈ found.map Prod.fst ∨ ∃ t, f.type = .option t) : ∃ value, finishField found f = .ok value := by
  unfold finishField
  cases hlookup : found.lookup f.name with
  | some value => exact ⟨value, rfl⟩
  | none =>
    have hmem : f.name ∉ found.map Prod.fst := by
      rw [List.mem_map]
      rintro ⟨entry, hentry, hname⟩
      exact absurd (beq_iff_eq.mpr hname.symm) (by simpa using List.lookup_eq_none_iff.mp hlookup entry hentry)
    obtain ⟨t, ht⟩ := h.resolve_left hmem
    rw [ht]
    exact ⟨_, rfl⟩

lemma mem_generateStruct {name : String} {schema : Json} {s : RustStruct} {f : RustField}
    (hstruct : generateStruct name schema = some s)
    (hspelled : ∀ field ∈ schema.fields.getD [], ∃ t ∈ sharedSpellings, field.index "type" = .string t)
    (hf : f ∈ s.fields) :
    ∃ aot ∈ loadFieldDefs schema, aot.name = f.name ∧ aot.fieldType ∈ sharedSpellings ∧
      f.type = if aot.required then parseTypeStr aot.fieldType else .option (parseTypeStr aot.fieldType) := by
  obtain ⟨fs, hfs, rfl⟩ := Option.map_eq_some_iff.mp hstruct
  obtain ⟨field, hfield, hgenerate⟩ := exists_of_forall₂_right (mapM_eq_some_iff.mp hfs) hf
  obtain ⟨t, ht, htype⟩ := hspelled field hfield
  refine ⟨loadFieldDef field, List.mem_map_of_mem hfield, ?_⟩
  rw [generateField, htype, parseType] at hgenerate
  cases hgenerate
  exact ⟨rfl, by simpa [loadFieldDef, htype, Json.asStr] using ht, by simp [loadFieldDef, htype, Json.asStr]⟩

/-- A record of an accepted registration decodes, if the registration requires every field that
the engine requires. -/
theorem registered_record_decodes {structName table : String} {schema registration : Json} {s : RustStruct}
    {n : ℕ} {record : List (String × CborValue)} (hstruct : generateStruct structName schema = some s)
    (hspelled : ∀ field ∈ schema.fields.getD [], ∃ t ∈ sharedSpellings, field.index "type" = .string t)
    (hnames : ((loadFieldDefs schema).map FieldDef.name).Nodup)
    (haccepted : validateRegisterSchema (.ok registration) table (loadFieldDefs schema) = .ok n)
    (hrequired : ∀ aot ∈ loadFieldDefs schema, aot.required = true →
      ∃ d ∈ registration.fields.getD [], declaredName d = aot.name ∧ declaredRequired d = true)
    (hrecord : Conforms registration record) : ∃ row, decodeStruct s record = .ok row := by
  have hdecode : ∀ entry ∈ record, ∀ f, s.fields.find? (fun f => f.name == entry.1) = some f →
      (decodeValue f.type entry.2).isSome := by
    intro entry hentry f hfind
    have hname := List.find?_some hfind
    rw [beq_iff_eq] at hname
    obtain ⟨aot, haot, haotName, hspelling, htype⟩ :=
      mem_generateStruct hstruct hspelled (List.mem_of_find?_eq_some hfind)
    obtain ⟨d, hd, hdName, t, ht, hv⟩ := hrecord.declared entry hentry
    obtain ⟨aot', haot', haotName', hsame⟩ := validateRegisterSchema_ok haccepted d hd
    have heq : aot' = aot := by
      apply List.inj_on_of_nodup_map hnames haot' haot
      rw [haotName', hdName, haotName, hname]
    rw [heq, ht] at hsame
    obtain ⟨hnull, hplain⟩ := decodeValue_of_hasType hspelling hsame.symm hv
    rw [htype]
    split
    · exact hplain
    · exact decodeValue_option hnull hplain
  obtain ⟨all, hall, -, hkept⟩ := decodeEntries_ok [] hrecord.nodup (fun _ _ h => nomatch h) hdecode
  rw [decodeStruct, hall]
  simp only [mapM_eq_ok_iff]
  refine exists_forall₂_iff.mpr (fun f hf => ?_)
  apply finishField_ok
  obtain ⟨aot, haot, haotName, -, htype⟩ := mem_generateStruct hstruct hspelled hf
  cases hreq : aot.required with
  | true =>
    obtain ⟨d, hd, hdName, hdRequired⟩ := hrequired aot haot hreq
    refine Or.inl (hkept f.name ?_ ⟨f, hf, rfl⟩)
    rw [← haotName, ← hdName]
    exact hrecord.required d hd hdRequired
  | false =>
    refine Or.inr ⟨parseTypeStr aot.fieldType, ?_⟩
    rw [htype, hreq]
    rfl

/-- A schema with a required and an optional field. -/
def telemetrySchema : Json := .object [("fields", .array
  [.object [("name", .string "id"), ("type", .string "string"), ("required", .bool true)],
   .object [("name", .string "occurred_at"), ("type", .string "long"), ("required", .bool false)]])]

lemma generateStruct_telemetrySchema : generateStruct "TelemetryEvents" telemetrySchema =
    some ⟨"TelemetryEvents", [⟨"id", .string⟩, ⟨"occurred_at", .option .i64⟩]⟩ := rfl

lemma telemetrySchema_spelled : ∀ field ∈ telemetrySchema.fields.getD [],
    ∃ t ∈ sharedSpellings, field.index "type" = .string t := by
  intro field hfield
  have hfields : telemetrySchema.fields.getD [] = [_, _] := rfl
  rw [hfields] at hfield
  rcases List.mem_pair.mp hfield with rfl | rfl
  · exact ⟨"string", by decide, rfl⟩
  · exact ⟨"long", by decide, rfl⟩

/-- A registration of both fields, with an alias for a type. -/
def aliasRegistration : Json := .object [("table", .string "telemetry_events"), ("fields", .array
  [.object [("name", .string "id"), ("type", .string "string"), ("required", .bool true)],
   .object [("name", .string "occurred_at"), ("type", .string "int64"), ("required", .bool false)]])]

/-- A record of it without the optional field decodes. -/
theorem registered_record_decodes_alias :
    ∃ row, decodeStruct ⟨"TelemetryEvents", [⟨"id", .string⟩, ⟨"occurred_at", .option .i64⟩]⟩
      [("id", .text "a")] = .ok row := by
  have haccepted : validateRegisterSchema (.ok aliasRegistration) "telemetry_events"
      (loadFieldDefs telemetrySchema) = .ok 2 := by decide
  refine registered_record_decodes generateStruct_telemetrySchema telemetrySchema_spelled (by decide)
    haccepted ?_ ⟨?_, ?_, ?_⟩
  · intro aot haot hreq
    have hdefs : loadFieldDefs telemetrySchema = [_, _] := rfl
    rw [hdefs] at haot
    rcases List.mem_pair.mp haot with rfl | rfl
    · exact ⟨_, List.mem_cons_self, rfl, rfl⟩
    · cases hreq
  · decide
  · intro entry hentry
    rw [List.mem_singleton] at hentry
    subst hentry
    exact ⟨_, List.mem_cons_self, rfl, .string, by decide, trivial⟩
  · intro d hd hreq
    have hfields : aliasRegistration.fields.getD [] = [_, _] := rfl
    rw [hfields] at hd
    rcases List.mem_pair.mp hd with rfl | rfl
    · exact List.mem_cons_self
    · cases hreq

/-- A registration in which the field that the engine requires is optional. -/
def laxRegistration : Json := .object [("table", .string "telemetry_events"), ("fields", .array
  [.object [("name", .string "id"), ("type", .string "string"), ("required", .bool false)]])]

/-- The engine accepts it, and a record of it without that field does not decode. -/
theorem lax_registration_loses_record :
    ¬∀ (structName table : String) (schema registration : Json) (s : RustStruct) (n : ℕ)
      (record : List (String × CborValue)), generateStruct structName schema = some s →
      (∀ field ∈ schema.fields.getD [], ∃ t ∈ sharedSpellings, field.index "type" = .string t) →
      ((loadFieldDefs schema).map FieldDef.name).Nodup →
      validateRegisterSchema (.ok registration) table (loadFieldDefs schema) = .ok n →
      Conforms registration record → ∃ row, decodeStruct s record = .ok row := by
  intro h
  have haccepted : validateRegisterSchema (.ok laxRegistration) "telemetry_events"
      (loadFieldDefs telemetrySchema) = .ok 1 := by decide
  have hrecord : Conforms laxRegistration [] := by
    refine ⟨List.nodup_nil, (fun _ hentry => nomatch hentry), fun d hd hreq => ?_⟩
    have hfields : laxRegistration.fields.getD [] = [_] := rfl
    rw [hfields, List.mem_singleton] at hd
    subst hd
    cases hreq
  obtain ⟨row, hrow⟩ := h "TelemetryEvents" "telemetry_events" telemetrySchema laxRegistration _ 1 []
    generateStruct_telemetrySchema telemetrySchema_spelled (by decide) haccepted hrecord
  cases hrow

end MicewriterEngine.Proofs
