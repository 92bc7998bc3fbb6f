import MicewriterEngine.Model.TableCreation

/-!
# Several engines create one table

The table and its namespace are created at most once, and every call returns them, as long
as no engine overtakes another one between its question to the catalog and its creation.
-/

namespace MicewriterEngine.Proofs
open Lib

variable {ι ε σ : Type} {d : Deployment ι ε σ} {c c' : Catalog σ} {state : IcebergState} {call : CreateCall σ}

structure TableShared (d : Deployment ι ε σ) (w : Engines ι ε σ) : Prop where
  returned : ∀ i result, w.calls i = .returned result →
    ∃ t, result = .ok t ∧ w.catalog.loadTable d.ident = .ok t
  namespaceOnce : w.catalog.createdNamespaces.count d.ident.nsIdent ≤ 1
  tableOnce : w.catalog.createdTables.count d.ident ≤ 1

/-- What the next step of a call finds: a proper namespace when it enters, and at a creation that
nobody else created the same meanwhile, and a schema that can be built. -/
def StepAllowed (d : Deployment ι ε σ) (fieldDefs : List FieldDef) (c : Catalog σ) : CreateCall σ → Prop
  | .entered => d.ident.nsIdent ≠ []
  | .createNamespace => d.ident.nsIdent ∉ c.namespaces
  | .createTable => d.ident ∉ c.tables ∧ (d.schemaBuilder (nestedFields fieldDefs)).isSome
  | _ => True

def NotOvertaken (d : Deployment ι ε σ) (w : Engines ι ε σ) (i : ι) : Prop :=
  StepAllowed d (d.fieldDefs i) w.catalog (w.calls i)

def Failed (call : CreateCall σ) : Prop := ∃ e, call = .returned (.error e)

/-- Namespaces and tables are never deleted. -/
structure Grows (c c' : Catalog σ) : Prop where
  namespaces : ∀ nsIdent ∈ c.namespaces, nsIdent ∈ c'.namespaces
  tables : ∀ ident t, c.loadTable ident = .ok t → c'.loadTable ident = .ok t

lemma Grows.refl (c : Catalog σ) : Grows c c := ⟨fun _ h => h, fun _ _ h => h⟩

lemma loadTable_of_mem {ident : TableIdent} (h : ident ∈ c.tables) : ∃ t, c.loadTable ident = .ok t := by
  obtain ⟨schema, hschema⟩ := Option.isSome_iff_exists.mp (AList.lookup_isSome.mpr h)
  exact ⟨⟨ident, schema⟩, by rw [Catalog.loadTable, hschema]⟩

lemma mem_of_loadTable {ident : TableIdent} {t : Table σ} (h : c.loadTable ident = .ok t) : ident ∈ c.tables := by
  by_contra hnot
  rw [Catalog.loadTable, AList.lookup_eq_none.mpr hnot] at h
  cases h

lemma Grows.mem_tables (h : Grows c c') {ident : TableIdent} (hmem : ident ∈ c.tables) : ident ∈ c'.tables := by
  obtain ⟨t, ht⟩ := loadTable_of_mem hmem
  exact mem_of_loadTable (h.tables ident t ht)

/-- What was created here exists, and was created once. -/
structure CreatedOnce (c : Catalog σ) : Prop where
  namespaces : ∀ nsIdent ∈ c.createdNamespaces, nsIdent ∈ c.namespaces
  tables : ∀ ident ∈ c.createdTables, ident ∈ c.tables
  namespacesNodup : c.createdNamespaces.Nodup
  tablesNodup : c.createdTables.Nodup

lemma createNamespace_of_mem {nsIdent : List String} (h : nsIdent ∈ c.namespaces) :
    c.createNamespace nsIdent = (.error .external, c) := if_pos h

lemma createNamespace_of_not_mem {nsIdent : List String} (hc : CreatedOnce c) (h : nsIdent ∉ c.namespaces) :
    ∃ c', c.createNamespace nsIdent = (.ok (), c') ∧ Grows c c' ∧ CreatedOnce c' ∧ nsIdent ∈ c'.namespaces := by
  refine ⟨_, if_neg h, ⟨fun _ hmem => List.mem_cons_of_mem _ hmem, fun _ _ ht => ht⟩, ?_, List.mem_cons_self⟩
  refine ⟨fun other hother => ?_, hc.tables, ?_, hc.tablesNodup⟩
  · rcases List.mem_cons.mp hother with rfl | hold
    · exact List.mem_cons_self
    · exact List.mem_cons_of_mem _ (hc.namespaces other hold)
  · exact List.nodup_cons.mpr ⟨fun hmem => h (hc.namespaces nsIdent hmem), hc.namespacesNodup⟩

lemma createTable_of_mem {ident : TableIdent} {schema : σ} (h : ident ∈ c.tables) :
    c.createTable ident schema = (.error .external, c) := if_pos (Or.inr h)

lemma createTable_of_not_mem {ident : TableIdent} (schema : σ) (hc : CreatedOnce c)
    (hnamespace : ident.nsIdent ∈ c.namespaces) (h : ident ∉ c.tables) :
    ∃ t c', c.createTable ident schema = (.ok t, c') ∧ Grows c c' ∧ CreatedOnce c' ∧
      c'.loadTable ident = .ok t := by
  have hcreates : ¬(ident.nsIdent ∉ c.namespaces ∨ ident ∈ c.tables) := not_or.mpr ⟨not_not.mpr hnamespace, h⟩
  refine ⟨_, _, if_neg hcreates, ⟨fun _ hmem => hmem, fun other t ht => ?_⟩, ?_, ?_⟩
  · have hne : other ≠ ident := fun heq => h (heq ▸ mem_of_loadTable ht)
    simpa only [Catalog.loadTable, AList.lookup_insert_ne hne] using ht
  · refine ⟨hc.namespaces, fun other hother => ?_, hc.namespacesNodup, ?_⟩
    · rcases List.mem_cons.mp hother with rfl | hold
      · exact (AList.mem_insert _).mpr (Or.inl rfl)
      · exact (AList.mem_insert _).mpr (Or.inr (hc.tables other hold))
    · exact List.nodup_cons.mpr ⟨fun hmem => h (hc.tables ident hmem), hc.tablesNodup⟩
  · simp only [Catalog.loadTable, AList.lookup_insert]

/-- What a call knows of the catalog. -/
def CallFits (d : Deployment ι ε σ) (c : Catalog σ) : CreateCall σ → Prop
  | .rememberNamespace | .lookupTable | .askTable | .createTable => d.ident.nsIdent ∈ c.namespaces
  | .loadKnown | .loadExisting => d.ident ∈ c.tables
  | .rememberTable t => c.loadTable d.ident = .ok t
  | .returned (.ok t) => c.loadTable d.ident = .ok t
  | _ => True

/-- The caches hold what exists. -/
structure StateFits (d : Deployment ι ε σ) (c : Catalog σ) (state : IcebergState) : Prop where
  namespaces : namespaceKey d.ident.nsIdent ∈ state.knownNamespaces → d.ident.nsIdent ∈ c.namespaces
  tables : tableKey d.ident ∈ state.knownTables → d.ident ∈ c.tables

lemma CallFits.grows (h : CallFits d c call) (hgrows : Grows c c') : CallFits d c' call := by
  cases call with
  | rememberNamespace | lookupTable | askTable | createTable => exact hgrows.namespaces _ h
  | loadKnown | loadExisting => exact hgrows.mem_tables h
  | rememberTable t => exact hgrows.tables _ t h
  | returned result =>
    cases result with
    | ok t => exact hgrows.tables _ t h
    | error e => trivial
  | _ => trivial

lemma StateFits.grows (h : StateFits d c state) (hgrows : Grows c c') : StateFits d c' state :=
  ⟨fun hmem => hgrows.namespaces _ (h.namespaces hmem), fun hmem => hgrows.mem_tables (h.tables hmem)⟩

/-- What one step of a call does. -/
structure Advanced (d : Deployment ι ε σ) (fieldDefs : List FieldDef) (c : Catalog σ) (call : CreateCall σ)
    (after : CreateCall σ × Catalog σ × IcebergState) : Prop where
  grows : Grows c after.2.1
  created : CreatedOnce after.2.1
  fits : CallFits d after.2.1 after.1
  caches : StateFits d after.2.1 after.2.2
  failed : Failed after.1 ↔ ¬StepAllowed d fieldDefs c call ∨ Failed call

/-- A step that changes neither the catalog nor a cache. -/
lemma Advanced.keep {fieldDefs : List FieldDef} {call' : CreateCall σ} (hc : CreatedOnce c)
    (hstate : StateFits d c state) (hfits : CallFits d c call')
    (hfailed : Failed call' ↔ ¬StepAllowed d fieldDefs c call ∨ Failed call) :
    Advanced d fieldDefs c call (call', c, state) :=
  ⟨.refl c, hc, hfits, hstate, hfailed⟩

theorem advance_spec (fieldDefs : List FieldDef) (hc : CreatedOnce c) (hcall : CallFits d c call)
    (hstate : StateFits d c state) :
    Advanced d fieldDefs c call (call.advance d.schemaBuilder d.ident fieldDefs c state) := by
  cases call with
  | entered =>
    simp only [CreateCall.advance]
    split
    · rename_i hempty
      exact .keep hc hstate trivial (by simp [Failed, StepAllowed, List.isEmpty_iff.mp hempty])
    · rename_i hempty
      have hallowed : d.ident.nsIdent ≠ [] := fun hnil => hempty (List.isEmpty_iff.mpr hnil)
      split
      · rename_i hknown
        exact .keep hc hstate (hstate.namespaces hknown) (by simp [Failed, StepAllowed, hallowed])
      · exact .keep hc hstate trivial (by simp [Failed, StepAllowed, hallowed])
  | askNamespace =>
    simp only [CreateCall.advance]
    split
    · rename_i hexists
      have hmem : d.ident.nsIdent ∈ c.namespaces := of_decide_eq_true hexists
      exact .keep hc hstate hmem (by simp [Failed, StepAllowed])
    · exact .keep hc hstate trivial (by simp [Failed, StepAllowed])
  | createNamespace =>
    by_cases hexists : d.ident.nsIdent ∈ c.namespaces
    · simp only [CreateCall.advance, createNamespace_of_mem hexists]
      exact .keep hc hstate trivial (by simp [Failed, StepAllowed, hexists])
    · obtain ⟨c', heq, hgrows, hc', hmem⟩ := createNamespace_of_not_mem hc hexists
      simp only [CreateCall.advance, heq]
      exact ⟨hgrows, hc', hmem, hstate.grows hgrows, by simp [Failed, StepAllowed, hexists]⟩
  | rememberNamespace =>
    exact ⟨.refl c, hc, hcall, ⟨fun _ => hcall, hstate.tables⟩, by simp [CreateCall.advance, Failed, StepAllowed]⟩
  | lookupTable =>
    simp only [CreateCall.advance]
    split
    · rename_i hknown
      exact .keep hc hstate (hstate.tables hknown) (by simp [Failed, StepAllowed])
    · exact .keep hc hstate hcall (by simp [Failed, StepAllowed])
  | loadKnown =>
    obtain ⟨t, ht⟩ := loadTable_of_mem hcall
    simp only [CreateCall.advance, ht]
    exact .keep hc hstate ht (by simp [Failed, StepAllowed])
  | askTable =>
    simp only [CreateCall.advance]
    split
    · rename_i hexists
      have hmem : d.ident ∈ c.tables := of_decide_eq_true hexists
      exact .keep hc hstate hmem (by simp [Failed, StepAllowed])
    · exact .keep hc hstate hcall (by simp [Failed, StepAllowed])
  | loadExisting =>
    obtain ⟨t, ht⟩ := loadTable_of_mem hcall
    simp only [CreateCall.advance, ht]
    exact .keep hc hstate ht (by simp [Failed, StepAllowed])
  | createTable =>
    cases hschema : d.schemaBuilder (nestedFields fieldDefs) with
    | none =>
      simp only [CreateCall.advance, buildIcebergSchema, hschema]
      exact .keep hc hstate trivial (by simp [Failed, StepAllowed, hschema])
    | some schema =>
      by_cases hexists : d.ident ∈ c.tables
      · simp only [CreateCall.advance, buildIcebergSchema, hschema, createTable_of_mem hexists]
        exact .keep hc hstate trivial (by simp [Failed, StepAllowed, hexists])
      · obtain ⟨t, c', heq, hgrows, hc', hload⟩ := createTable_of_not_mem schema hc hcall hexists
        simp only [CreateCall.advance, buildIcebergSchema, hschema, heq]
        exact ⟨hgrows, hc', hload, hstate.grows hgrows, by simp [Failed, StepAllowed, hschema, hexists]⟩
  | rememberTable t =>
    exact ⟨.refl c, hc, hcall, ⟨hstate.namespaces, fun _ => mem_of_loadTable hcall⟩,
      by simp [CreateCall.advance, Failed, StepAllowed]⟩
  | returned result => exact .keep hc hstate hcall (by simp [StepAllowed])

/-! ### All calls -/

variable {w w' : Engines ι ε σ} {i : ι}

structure EnginesInv (d : Deployment ι ε σ) (w : Engines ι ε σ) : Prop where
  created : CreatedOnce w.catalog
  calls : ∀ i, CallFits d w.catalog (w.calls i)
  states : ∀ engine, StateFits d w.catalog (w.states engine)

lemma EnginesInv.advanced (hw : EnginesInv d w) (i : ι) :
    Advanced d (d.fieldDefs i) w.catalog (w.calls i) ((w.calls i).advance d.schemaBuilder d.ident (d.fieldDefs i)
      w.catalog (w.states (d.engineOf i))) :=
  advance_spec (d.fieldDefs i) hw.created (hw.calls i) (hw.states (d.engineOf i))

lemma enginesInv_start (namespaces : List (List String)) (tables : AList (fun _ : TableIdent => σ)) :
    EnginesInv d (.start namespaces tables) where
  created := ⟨fun _ h => absurd h List.not_mem_nil, fun _ h => absurd h List.not_mem_nil, .nil, .nil⟩
  calls := fun _ => trivial
  states := fun _ => ⟨fun h => absurd h List.not_mem_nil, fun h => absurd h List.not_mem_nil⟩

variable [DecidableEq ι] [DecidableEq ε]

lemma EnginesInv.step (hw : EnginesInv d w) (hstep : CallStep d w i w') : EnginesInv d w' := by
  have hspec := hw.advanced i
  subst hstep
  refine ⟨hspec.created, fun j => ?_, fun engine => ?_⟩
  · by_cases hj : j = i
    · subst hj
      simpa only [Engines.advance, Function.update_self] using hspec.fits
    · simpa only [Engines.advance, Function.update_of_ne hj] using (hw.calls j).grows hspec.grows
  · by_cases hengine : engine = d.engineOf i
    · subst hengine
      simpa only [Engines.advance, Function.update_self] using hspec.caches
    · simpa only [Engines.advance, Function.update_of_ne hengine] using (hw.states engine).grows hspec.grows

/-- A step makes a call fail exactly when it is not allowed. -/
lemma failed_step_iff (hw : EnginesInv d w) (hstep : CallStep d w i w') :
    (∃ j, Failed (w'.calls j)) ↔ ¬NotOvertaken d w i ∨ ∃ j, Failed (w.calls j) := by
  have hspec := (hw.advanced i).failed
  have hself : Failed (w'.calls i) ↔ ¬NotOvertaken d w i ∨ Failed (w.calls i) := by
    subst hstep
    simpa only [Engines.advance, Function.update_self, NotOvertaken] using hspec
  have hother : ∀ j, j ≠ i → w'.calls j = w.calls j := by
    intro j hj
    subst hstep
    simp only [Engines.advance, Function.update_of_ne hj]
  constructor
  · rintro ⟨j, hj⟩
    by_cases heq : j = i
    · subst heq
      exact (hself.mp hj).imp_right (fun h => ⟨j, h⟩)
    · rw [hother j heq] at hj
      exact Or.inr ⟨j, hj⟩
  · rintro (hnot | ⟨j, hj⟩)
    · exact ⟨i, hself.mpr (Or.inl hnot)⟩
    · by_cases heq : j = i
      · subst heq
        exact ⟨j, hself.mpr (Or.inr hj)⟩
      · exact ⟨j, by rwa [hother j heq]⟩

/-- In a run no call fails exactly when all steps are allowed. -/
lemma no_failure_iff {es : List ι} (hw : EnginesInv d w) (h : Run (CallStep d) w es w') :
    (¬∃ j, Failed (w'.calls j)) ↔
      (¬∃ j, Failed (w.calls j)) ∧ Run (Guarded (CallStep d) (NotOvertaken d)) w es w' := by
  induction h with
  | nil w => exact ⟨fun h => ⟨h, .nil w⟩, And.left⟩
  | cons hfirst hrest ih =>
    rw [ih (hw.step hfirst), failed_step_iff hw hfirst, not_or, not_not]
    constructor
    · rintro ⟨⟨hallowed, hnone⟩, hrun⟩
      exact ⟨hnone, .cons ⟨hallowed, hfirst⟩ hrun⟩
    · rintro ⟨hnone, hrun⟩
      cases hrun with
      | cons hfirst' hrun =>
        obtain ⟨hallowed, hsame⟩ := hfirst'
        rw [CallStep] at hfirst hsame
        subst hfirst
        subst hsame
        exact ⟨⟨hallowed, hnone⟩, hrun⟩

/-- How many more steps a call can take. -/
def stepsLeft : CreateCall σ → ℕ
  | .entered => 8
  | .askNamespace => 7
  | .createNamespace => 6
  | .rememberNamespace => 5
  | .lookupTable => 4
  | .askTable => 3
  | .createTable | .loadExisting => 2
  | .rememberTable _ | .loadKnown => 1
  | .returned _ => 0

lemma stepsLeft_advance (schemaBuilder : List NestedField → Option σ) (ident : TableIdent)
    (fieldDefs : List FieldDef) (c : Catalog σ) (state : IcebergState) (call : CreateCall σ) :
    stepsLeft (call.advance schemaBuilder ident fieldDefs c state).1 ≤ stepsLeft call - 1 := by
  unfold CreateCall.advance
  split <;> (try split) <;> (try split) <;> simp [stepsLeft]

lemma stepsLeft_run {es : List ι} (h : Run (CallStep d) w es w') (i : ι) :
    stepsLeft (w'.calls i) ≤ stepsLeft (w.calls i) - es.count i := by
  induction h with
  | nil w => exact le_of_eq (Nat.sub_zero _).symm
  | @cons w w₁ w' j es hfirst _ ih =>
    have hstep : stepsLeft (w₁.calls i) ≤ stepsLeft (w.calls i) - if j = i then 1 else 0 := by
      subst hfirst
      by_cases hj : j = i
      · subst hj
        simpa only [Engines.advance, Function.update_self, ite_true] using stepsLeft_advance _ _ _ _ _ _
      · simp only [Engines.advance, Function.update_of_ne (Ne.symm hj), hj, ite_false, Nat.sub_zero, le_refl]
    rw [List.count_cons]
    simp only [beq_iff_eq]
    omega

lemma returned_of_stepsLeft (h : stepsLeft call = 0) : ∃ result, call = .returned result := by
  cases call with
  | returned result => exact ⟨result, rfl⟩
  | _ => simp [stepsLeft] at h

/-- A call returns after at most eight steps of its own. All calls return the one table, created
at most once, exactly in the runs in which no creation is overtaken. -/
theorem table_shared_iff {namespaces : List (List String)} {tables : AList (fun _ : TableIdent => σ)}
    {es : List ι} (h : Run (CallStep d) (.start namespaces tables) es w) :
    (∀ i, 8 ≤ es.count i → ∃ result, w.calls i = .returned result) ∧
      (TableShared d w ↔ Run (Guarded (CallStep d) (NotOvertaken d)) (.start namespaces tables) es w) := by
  have hstart : EnginesInv d (.start namespaces tables) := enginesInv_start namespaces tables
  have hinv : EnginesInv d w := h.invariant (EnginesInv d) (fun _ _ _ hw hstep => hw.step hstep) hstart
  refine ⟨fun i hi => returned_of_stepsLeft ?_, ?_⟩
  · have hleft := stepsLeft_run h i
    have hfirst : stepsLeft ((Engines.start namespaces tables : Engines ι ε σ).calls i) = 8 := rfl
    omega
  · have hnone : ¬∃ j, Failed ((Engines.start namespaces tables : Engines ι ε σ).calls j) := by
      rintro ⟨j, e, he⟩
      cases he
    have hiff := no_failure_iff hstart h
    rw [and_iff_right hnone] at hiff
    rw [← hiff]
    constructor
    · rintro hshared ⟨j, e, he⟩
      obtain ⟨t, ht, -⟩ := hshared.returned j _ he
      cases ht
    · intro hgood
      refine ⟨fun i result hresult => ?_, ?_, ?_⟩
      · have hfits := hinv.calls i
        rw [hresult] at hfits
        cases result with
        | ok t => exact ⟨t, rfl, hfits⟩
        | error e => exact absurd ⟨i, e, hresult⟩ hgood
      · exact List.nodup_iff_count_le_one.mp hinv.created.namespacesNodup _
      · exact List.nodup_iff_count_le_one.mp hinv.created.tablesNodup _

lemma run_advance (d : Deployment ι ε σ) (es : List ι) (w : Engines ι ε σ) :
    Run (CallStep d) w es (es.foldl (Engines.advance d) w) := by
  induction es generalizing w with
  | nil => exact .nil w
  | cons i es ih => exact .cons rfl (ih (w.advance d i))

/-- Engines that make one call each, for a table of no columns whose schema always builds. -/
def emptyDeployment (ι : Type) : Deployment ι ι (List NestedField) where
  engineOf := id
  fieldDefs := fun _ => []
  ident := ⟨["analytics"], "telemetry_events"⟩
  schemaBuilder := some

/-- The second engine asks when the first has created the namespace, and again when it has created
the table. -/
theorem table_shared_in_turn :
    TableShared (emptyDeployment Bool) ([false, false, false, true, true, true, false, false, false, false, true, true,
      true, false, true].foldl (Engines.advance (emptyDeployment Bool)) (.start [] ∅)) := by
  have hentered : (emptyDeployment Bool).ident.nsIdent ≠ [] := by decide
  have hnamespace : (emptyDeployment Bool).ident.nsIdent ∉ ([] : List (List String)) := List.not_mem_nil
  have htable : (emptyDeployment Bool).ident ∉ (∅ : AList (fun _ : TableIdent => List NestedField)) :=
    AList.notMem_empty _
  refine (table_shared_iff (run_advance _ _ _)).2.mpr ?_
  refine .cons ⟨hentered, rfl⟩ (.cons ⟨trivial, rfl⟩ (.cons ⟨hnamespace, rfl⟩ (.cons ⟨hentered, rfl⟩ ?_)))
  refine .cons ⟨trivial, rfl⟩ (.cons ⟨trivial, rfl⟩ (.cons ⟨trivial, rfl⟩ (.cons ⟨trivial, rfl⟩ ?_)))
  refine .cons ⟨trivial, rfl⟩ (.cons ⟨⟨htable, rfl⟩, rfl⟩ (.cons ⟨trivial, rfl⟩ (.cons ⟨trivial, rfl⟩ ?_)))
  exact .cons ⟨trivial, rfl⟩ (.cons ⟨trivial, rfl⟩ (.cons ⟨trivial, rfl⟩ (.nil _)))

/-- Both engines learn that the namespace is missing, and the second creation is rejected. -/
theorem second_creation_fails :
    ¬∀ (ι ε σ : Type) [DecidableEq ι] [DecidableEq ε] (d : Deployment ι ε σ) (namespaces : List (List String))
      (tables : AList (fun _ : TableIdent => σ)) (es : List ι) (w : Engines ι ε σ), d.ident.nsIdent ≠ [] →
      (∀ fields, (d.schemaBuilder fields).isSome) → Run (CallStep d) (.start namespaces tables) es w →
      TableShared d w := by
  intro h
  have hshared := h Bool Bool _ (emptyDeployment Bool) [] ∅ [false, true, false, true, false, true] _ (by decide)
    (fun _ => rfl) (run_advance _ _ _)
  obtain ⟨t, ht, -⟩ := hshared.returned true (.error .external) rfl
  cases ht

end MicewriterEngine.Proofs
