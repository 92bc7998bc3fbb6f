import MicewriterEngine.Model.GrpcServer
import MicewriterEngine.Proofs.SchemaAgreement

/-!
# The rules for a registration

What `validate_register_schema` is documented to accept, what it accepts, and where the
two differ: absent members have defaults, and two unknown types compare as equal.
-/

namespace MicewriterEngine.Proofs

variable {engineTable : String} {fieldDefs : List FieldDef} {incoming field : Json}

/-- An element names a field of the engine and gives a known type, the one that the engine uses
for that field. -/
def DeclaresField (fieldDefs : List FieldDef) (field : Json) : Prop :=
  ∃ name typeStr, field.get "name" = some (.string name) ∧ field.get "type" = some (.string typeStr) ∧
    ∃ aot ∈ fieldDefs, aot.name = name ∧
      MappedType.fromStr typeStr = some (MappedType.fromStrOrString aot.fieldType)

/-- The documented rules for a registration of `n` fields. -/
structure FollowsRules (engineTable : String) (fieldDefs : List FieldDef) (incoming : Json) (n : ℕ) : Prop where
  table : ∀ v, incoming.get "table" = some v → v = .string engineTable
  fields : ∃ fields, incoming.fields = some fields ∧ fields.length = n ∧
    ∀ field ∈ fields, DeclaresField fieldDefs field

/-- The comparison that the code makes, with its defaults. -/
def Matches (fieldDefs : List FieldDef) (field : Json) : Prop :=
  ∃ aot ∈ fieldDefs, aot.name = declaredName field ∧
    MappedType.fromStr (declaredType field) = MappedType.fromStr aot.fieldType

/-- The comparison succeeds without a name, or between two unknown types. -/
def LaxMatch (fieldDefs : List FieldDef) (field : Json) : Prop :=
  Matches fieldDefs field ∧
    ((field.get "name").bind Json.asStr = none ∨ MappedType.fromStr (declaredType field) = none)

/-- The element gives `string` for a field of unknown type, which the engine writes as a string. -/
def FallbackMatch (fieldDefs : List FieldDef) (field : Json) : Prop :=
  (field.get "name").bind Json.asStr ≠ none ∧ declaredType field = "string" ∧
    ∃ aot ∈ fieldDefs, aot.name = declaredName field ∧ MappedType.fromStr aot.fieldType = none

/-- A payload on which the code and the rules agree: one that both refuse for its lack of fields,
its table or one of its elements, or one in which there is something that only the code accepts
if and only if there is something that only the rules accept. -/
def JudgedByRules (engineTable : String) (fieldDefs : List FieldDef) (incoming : Json) : Prop :=
  incoming.fields = none ∨
  (∃ table, (incoming.get "table").bind Json.asStr = some table ∧ table ≠ engineTable) ∨
  (∃ field ∈ incoming.fields.getD [], ¬Matches fieldDefs field ∧ ¬FallbackMatch fieldDefs field) ∨
  (((∃ v, incoming.get "table" = some v ∧ v.asStr = none) ∨
      ∃ field ∈ incoming.fields.getD [], LaxMatch fieldDefs field) ↔
    ∃ field ∈ incoming.fields.getD [], FallbackMatch fieldDefs field)

lemma asStr_eq_some {v : Option Json} {s : String} : v.bind Json.asStr = some s ↔ v = some (.string s) := by
  cases v with
  | none => simp
  | some v => cases v <;> simp [Json.asStr]

lemma find?_name_eq_some (hnames : (fieldDefs.map FieldDef.name).Nodup) (name : String) (aot : FieldDef) :
    fieldDefs.find? (fun f => f.name == name) = some aot ↔ aot ∈ fieldDefs ∧ aot.name = name := by
  constructor
  · intro h
    have hname := List.find?_some h
    exact ⟨List.mem_of_find?_eq_some h, beq_iff_eq.mp hname⟩
  · rintro ⟨haot, rfl⟩
    cases hfound : fieldDefs.find? (fun f => f.name == aot.name) with
    | none =>
      have hnone := List.find?_eq_none.mp hfound aot haot
      simp at hnone
    | some other =>
      have hname := List.find?_some hfound
      rw [List.inj_on_of_nodup_map hnames (List.mem_of_find?_eq_some hfound) haot (beq_iff_eq.mp hname)]

variable (engineTable) in
lemma validateField_ok_iff (hnames : (fieldDefs.map FieldDef.name).Nodup) :
    validateField engineTable fieldDefs field = .ok () ↔ Matches fieldDefs field := by
  have hfind := find?_name_eq_some hnames (declaredName field)
  unfold validateField
  dsimp only
  cases hfound : fieldDefs.find? (fun f => f.name == declaredName field) with
  | none =>
    refine iff_of_false (by simp) ?_
    rintro ⟨aot, haot, hname, -⟩
    rw [(hfind aot).mpr ⟨haot, hname⟩] at hfound
    cases hfound
  | some aot =>
    obtain ⟨haot, hname⟩ := (hfind aot).mp hfound
    dsimp only
    split
    · rename_i hne
      refine iff_of_false (by simp) ?_
      rintro ⟨other, hother, hotherName, htype⟩
      rw [(hfind other).mpr ⟨hother, hotherName⟩, Option.some.injEq] at hfound
      exact hne (hfound ▸ htype)
    · rename_i heq
      exact iff_of_true rfl ⟨aot, haot, hname, not_not.mp heq⟩

variable (engineTable) in
lemma validateFields_ok_iff_matches (hnames : (fieldDefs.map FieldDef.name).Nodup) (fields : List Json) :
    validateFields engineTable fieldDefs fields = .ok () ↔ ∀ field ∈ fields, Matches fieldDefs field := by
  rw [validateFields_ok_iff]
  exact forall₂_congr (fun field _ => validateField_ok_iff engineTable hnames)

/-- What the code accepts. -/
theorem validateRegisterSchema_ok_iff (hnames : (fieldDefs.map FieldDef.name).Nodup) {n : ℕ} :
    validateRegisterSchema (.ok incoming) engineTable fieldDefs = .ok n ↔
      (∀ table, (incoming.get "table").bind Json.asStr = some table → table = engineTable) ∧
      ∃ fields, incoming.fields = some fields ∧ fields.length = n ∧ ∀ field ∈ fields, Matches fieldDefs field := by
  have hdeclared : validateRegisterSchema.validateDeclared engineTable fieldDefs incoming = .ok n ↔
      ∃ fields, incoming.fields = some fields ∧ fields.length = n ∧ ∀ field ∈ fields, Matches fieldDefs field := by
    unfold validateRegisterSchema.validateDeclared
    cases incoming.fields with
    | none => simp
    | some fields =>
      have hfields := validateFields_ok_iff_matches engineTable hnames fields
      dsimp only
      cases hall : validateFields engineTable fieldDefs fields with
      | error e =>
        rw [hall] at hfields
        have hrefused : ¬∀ field ∈ fields, Matches fieldDefs field := by
          intro hmatches
          cases hfields.mpr hmatches
        simp only [reduceCtorEq, Option.some.injEq, exists_eq_left', hrefused, and_false]
      | ok u =>
        rw [hall] at hfields
        simp only [Except.ok.injEq, Option.some.injEq, exists_eq_left']
        exact ⟨fun hn => ⟨hn, hfields.mp rfl⟩, And.left⟩
  rw [← hdeclared]
  unfold validateRegisterSchema
  dsimp only
  cases htable : (incoming.get "table").bind Json.asStr with
  | none => simp
  | some table =>
    by_cases hne : table = engineTable
    · simp [hne]
    · simp [hne]

lemma ne_empty_of_fromStr {s : String} {t : MappedType} (h : MappedType.fromStr s = some t) : s ≠ "" := by
  rintro rfl
  cases h

lemma get_name_of_declared {typeStr : String} {key : String} (hne : typeStr ≠ "")
    (h : ((field.get key).bind Json.asStr).getD "" = typeStr) : field.get key = some (.string typeStr) := by
  cases hget : (field.get key).bind Json.asStr with
  | none =>
    rw [hget] at h
    exact absurd h.symm hne
  | some s =>
    rw [hget, Option.getD_some] at h
    exact h ▸ asStr_eq_some.mp hget

/-- The rules accept what matches without a deviation, and the fallback for unknown types. -/
lemma declaresField_iff :
    DeclaresField fieldDefs field ↔
      Matches fieldDefs field ∧ ¬LaxMatch fieldDefs field ∨ FallbackMatch fieldDefs field := by
  constructor
  · rintro ⟨name, typeStr, hname, htype, aot, haot, haotName, hsame⟩
    have hdeclaredName : declaredName field = name := by simp [declaredName, hname, Json.asStr]
    have hdeclaredType : declaredType field = typeStr := by simp [declaredType, htype, Json.asStr]
    have hgiven : (field.get "name").bind Json.asStr ≠ none := by simp [hname, Json.asStr]
    cases hknown : MappedType.fromStr aot.fieldType with
    | some t =>
      rw [MappedType.fromStrOrString, hknown, Option.getD_some] at hsame
      refine Or.inl ⟨⟨aot, haot, haotName.trans hdeclaredName.symm, ?_⟩, ?_⟩
      · rw [hdeclaredType, hsame, hknown]
      · rintro ⟨-, hnone | hunknown⟩
        · exact hgiven hnone
        · rw [hdeclaredType, hsame] at hunknown
          cases hunknown
    | none =>
      rw [MappedType.fromStrOrString, hknown, Option.getD_none, fromStr_eq_string] at hsame
      exact Or.inr ⟨hgiven, hdeclaredType.trans hsame, aot, haot, haotName.trans hdeclaredName.symm, hknown⟩
  · rintro (⟨⟨aot, haot, haotName, hsame⟩, hexact⟩ | ⟨hgiven, htype, aot, haot, haotName, hunknown⟩)
    · have hdeviates := not_and.mp hexact ⟨aot, haot, haotName, hsame⟩
      rw [not_or] at hdeviates
      obtain ⟨name, hname⟩ := Option.ne_none_iff_exists'.mp hdeviates.1
      obtain ⟨t, ht⟩ := Option.ne_none_iff_exists'.mp hdeviates.2
      have hdeclaredName : declaredName field = name := by rw [declaredName, hname, Option.getD_some]
      refine ⟨name, declaredType field, asStr_eq_some.mp hname, ?_, aot, haot, haotName.trans hdeclaredName, ?_⟩
      · exact get_name_of_declared (ne_empty_of_fromStr ht) rfl
      · rw [MappedType.fromStrOrString, ← hsame, ht, Option.getD_some]
    · obtain ⟨name, hname⟩ := Option.ne_none_iff_exists'.mp hgiven
      have hdeclaredName : declaredName field = name := by rw [declaredName, hname, Option.getD_some]
      refine ⟨name, "string", asStr_eq_some.mp hname, ?_, aot, haot, haotName.trans hdeclaredName, ?_⟩
      · exact get_name_of_declared (by decide) htype
      · rw [MappedType.fromStrOrString, hunknown, Option.getD_none]
        rfl

lemma not_matches_of_fallback (hnames : (fieldDefs.map FieldDef.name).Nodup) (h : FallbackMatch fieldDefs field) :
    ¬Matches fieldDefs field := by
  obtain ⟨-, htype, aot, haot, hname, hunknown⟩ := h
  rintro ⟨other, hother, hotherName, hsame⟩
  have heq : other = aot := List.inj_on_of_nodup_map hnames hother haot (hotherName.trans hname.symm)
  rw [heq, hunknown, htype] at hsame
  cases hsame

/-- Without a refusal that both share, the code accepts unless there is a fallback match. -/
lemma accepted_iff_of_fit (hnames : (fieldDefs.map FieldDef.name).Nodup) {fields : List Json}
    (hfields : incoming.fields = some fields)
    (htable : ∀ table, (incoming.get "table").bind Json.asStr = some table → table = engineTable)
    (hfit : ∀ field ∈ fields, Matches fieldDefs field ∨ FallbackMatch fieldDefs field) (n : ℕ) :
    validateRegisterSchema (.ok incoming) engineTable fieldDefs = .ok n ↔
      fields.length = n ∧ ¬∃ field ∈ fields, FallbackMatch fieldDefs field := by
  rw [validateRegisterSchema_ok_iff hnames, hfields]
  constructor
  · rintro ⟨-, fields', hsome, hn, hall⟩
    cases hsome
    refine ⟨hn, ?_⟩
    rintro ⟨field, hfield, hfallback⟩
    exact not_matches_of_fallback hnames hfallback (hall field hfield)
  · rintro ⟨hn, hnone⟩
    refine ⟨htable, fields, rfl, hn, fun field hfield => (hfit field hfield).resolve_right ?_⟩
    exact fun hfallback => hnone ⟨field, hfield, hfallback⟩

/-- In the same case the rules accept unless the table or an element matches only laxly. -/
lemma follows_iff_of_fit (hnames : (fieldDefs.map FieldDef.name).Nodup) {fields : List Json}
    (hfields : incoming.fields = some fields)
    (htable : ∀ table, (incoming.get "table").bind Json.asStr = some table → table = engineTable)
    (hfit : ∀ field ∈ fields, Matches fieldDefs field ∨ FallbackMatch fieldDefs field) (n : ℕ) :
    FollowsRules engineTable fieldDefs incoming n ↔
      fields.length = n ∧ ¬((∃ v, incoming.get "table" = some v ∧ v.asStr = none) ∨
        ∃ field ∈ fields, LaxMatch fieldDefs field) := by
  constructor
  · rintro ⟨hgiven, fields', hfields', hn, hall⟩
    rw [hfields, Option.some.injEq] at hfields'
    subst hfields'
    refine ⟨hn, ?_⟩
    rintro (⟨v, hv, hodd⟩ | ⟨field, hfield, hlax⟩)
    · rw [hgiven v hv] at hodd
      cases hodd
    · rcases declaresField_iff.mp (hall field hfield) with ⟨-, hexact⟩ | hfallback
      · exact hexact hlax
      · exact not_matches_of_fallback hnames hfallback hlax.1
  · rintro ⟨hn, hexact⟩
    rw [not_or] at hexact
    refine ⟨fun v hv => ?_, fields, hfields, hn, fun field hfield => declaresField_iff.mpr ?_⟩
    · obtain ⟨table, hstring⟩ := Option.ne_none_iff_exists'.mp (fun hodd => hexact.1 ⟨v, hv, hodd⟩)
      have hbind : (incoming.get "table").bind Json.asStr = some table := by rw [hv, Option.bind_some, hstring]
      rw [asStr_eq_some, hv, Option.some.injEq] at hbind
      rw [hbind, htable table (by rw [hv, Option.bind_some, hstring])]
    · refine (hfit field hfield).imp_left (fun hmatch => ⟨hmatch, fun hlax => ?_⟩)
      exact hexact.2 ⟨field, hfield, hlax⟩

/-- The code accepts exactly the registrations that follow the rules, unless the payload has
something that is too odd for only one of the two. -/
theorem validate_follows_rules_iff (hnames : (fieldDefs.map FieldDef.name).Nodup) :
    (∀ n, validateRegisterSchema (.ok incoming) engineTable fieldDefs = .ok n ↔
      FollowsRules engineTable fieldDefs incoming n) ↔
      JudgedByRules engineTable fieldDefs incoming := by
  have hrefused : (∀ n, ¬validateRegisterSchema (.ok incoming) engineTable fieldDefs = .ok n) →
      (∀ n, ¬FollowsRules engineTable fieldDefs incoming n) →
      ∀ n, validateRegisterSchema (.ok incoming) engineTable fieldDefs = .ok n ↔
        FollowsRules engineTable fieldDefs incoming n :=
    fun hcode hrules n => iff_of_false (hcode n) (hrules n)
  cases hfields : incoming.fields with
  | none =>
    refine iff_of_true (hrefused (fun n hcode => ?_) (fun n hrules => ?_)) (Or.inl hfields)
    · obtain ⟨-, fields, hsome, -⟩ := (validateRegisterSchema_ok_iff hnames).mp hcode
      rw [hfields] at hsome
      cases hsome
    · obtain ⟨fields, hsome, -⟩ := hrules.fields
      rw [hfields] at hsome
      cases hsome
  | some fields =>
    by_cases hwrong : ∃ table, (incoming.get "table").bind Json.asStr = some table ∧ table ≠ engineTable
    · obtain ⟨table, htable, hne⟩ := hwrong
      refine iff_of_true (hrefused (fun n hcode => ?_) (fun n hrules => ?_)) (Or.inr (Or.inl ⟨table, htable, hne⟩))
      · exact hne (((validateRegisterSchema_ok_iff hnames).mp hcode).1 table htable)
      · have hstring := hrules.table _ (asStr_eq_some.mp htable)
        exact hne (Json.string.inj hstring)
    by_cases hunfit : ∃ field ∈ fields, ¬Matches fieldDefs field ∧ ¬FallbackMatch fieldDefs field
    · have hjudged : JudgedByRules engineTable fieldDefs incoming := by
        refine Or.inr (Or.inr (Or.inl ?_))
        rw [hfields]
        exact hunfit
      obtain ⟨field, hfield, hmatch, hfallback⟩ := hunfit
      refine iff_of_true (hrefused (fun n hcode => ?_) (fun n hrules => ?_)) hjudged
      · obtain ⟨-, fields', hsome, -, hall⟩ := (validateRegisterSchema_ok_iff hnames).mp hcode
        rw [hfields, Option.some.injEq] at hsome
        exact hmatch (hall field (hsome ▸ hfield))
      · obtain ⟨fields', hsome, -, hall⟩ := hrules.fields
        rw [hfields, Option.some.injEq] at hsome
        exact (declaresField_iff.mp (hall field (hsome ▸ hfield))).elim (fun h => hmatch h.1) hfallback
    have htable : ∀ table, (incoming.get "table").bind Json.asStr = some table → table = engineTable :=
      fun table ht => by_contra (fun hne => hwrong ⟨table, ht, hne⟩)
    have hfit : ∀ field ∈ fields, Matches fieldDefs field ∨ FallbackMatch fieldDefs field := by
      intro field hfield
      by_contra hneither
      exact hunfit ⟨field, hfield, not_or.mp hneither⟩
    simp only [accepted_iff_of_fit hnames hfields htable hfit, follows_iff_of_fit hnames hfields htable hfit,
      JudgedByRules, hfields, Option.getD_some, hwrong, hunfit, reduceCtorEq, false_or]
    constructor
    · intro hagree
      have hlength := hagree fields.length
      rw [eq_self_iff_true, true_and, true_and] at hlength
      exact (not_iff_not.mp hlength).symm
    · intro hlax n
      rw [hlax]

/-- The registration of the engine's own fields is judged by the rules. -/
theorem validate_follows_rules_telemetry :
    validateRegisterSchema (.ok (.object [("table", .string "telemetry_events"), ("fields", .array
        [.object [("name", .string "occurred_at"), ("type", .string "int64")]])])) "telemetry_events"
        [⟨"id", "string", true⟩, ⟨"occurred_at", "long", false⟩] = .ok 1 ↔
      FollowsRules "telemetry_events" [⟨"id", "string", true⟩, ⟨"occurred_at", "long", false⟩]
        (.object [("table", .string "telemetry_events"), ("fields", .array
          [.object [("name", .string "occurred_at"), ("type", .string "int64")]])]) 1 := by
  refine (validate_follows_rules_iff (by decide)).mpr (Or.inr (Or.inr (Or.inr (iff_of_false ?_ ?_)))) 1
  · rintro (⟨v, hv, hodd⟩ | ⟨field, hfield, -, hlax⟩)
    · cases hv
      cases hodd
    · cases List.mem_singleton.mp hfield
      rcases hlax with hname | htype
      · cases hname
      · exact absurd htype (by decide)
  · rintro ⟨field, hfield, -, htype, -⟩
    cases List.mem_singleton.mp hfield
    exact absurd htype (by decide)

/-- Two unknown types compare as equal, and the field is accepted. -/
theorem unknown_types_accepted :
    ¬∀ (engineTable : String) (fieldDefs : List FieldDef) (incoming : Json),
      (fieldDefs.map FieldDef.name).Nodup →
      ∀ n, validateRegisterSchema (.ok incoming) engineTable fieldDefs = .ok n ↔
        FollowsRules engineTable fieldDefs incoming n := by
  intro h
  have hrules := (h "telemetry_events" [⟨"id", "uuid", true⟩] (.object [("fields", .array
    [.object [("name", .string "id"), ("type", .string "strnig")]])]) (by decide) 1).mp (by decide)
  obtain ⟨fields, hfields, -, hall⟩ := hrules.fields
  cases hfields
  obtain ⟨name, typeStr, -, htype, aot, -, -, hknown⟩ := hall _ List.mem_cons_self
  cases htype
  have hunknown : MappedType.fromStr "strnig" = none := by decide
  rw [hunknown] at hknown
  cases hknown

end MicewriterEngine.Proofs
