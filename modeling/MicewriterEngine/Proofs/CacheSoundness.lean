import MicewriterEngine.Model.ExistenceCaches

/-!
# What the existence caches know

The caches remember items by joined strings. As long as no two of the items have the same
key, a call leaves out a question only when the answer for its own item is known.
-/

namespace MicewriterEngine.Proofs
open Lib

/-- Different items have different keys. An empty namespace is refused before its key is formed. -/
structure KeysDistinct {ι σ : Type} (d : TableCalls ι σ) : Prop where
  namespaces : ∀ i j, (d.ident i).nsIdent ≠ [] → (d.ident j).nsIdent ≠ [] →
    namespaceKey (d.ident i).nsIdent = namespaceKey (d.ident j).nsIdent → (d.ident i).nsIdent = (d.ident j).nsIdent
  tables : ∀ i j, (d.ident i).nsIdent ≠ [] → (d.ident j).nsIdent ≠ [] →
    tableKey (d.ident i) = tableKey (d.ident j) → d.ident i = d.ident j

/-- Names without the separator can be read back from the joined string. -/
lemma intercalate_slash_inj {xs ys : List String} (hxs : ∀ x ∈ xs, '/' ∉ x.toList) (hys : ∀ y ∈ ys, '/' ∉ y.toList)
    (hx : xs ≠ []) (hy : ys ≠ []) (h : "/".intercalate xs = "/".intercalate ys) : xs = ys := by
  have hchars := congrArg String.toList h
  rw [String.toList_intercalate, String.toList_intercalate] at hchars
  have hsplit := congrArg (fun cs => cs.splitOn '/') hchars
  have hback : ∀ zs : List String, (∀ z ∈ zs, '/' ∉ z.toList) → zs ≠ [] →
      ("/".toList.intercalate (zs.map String.toList)).splitOn '/' = zs.map String.toList := by
    intro zs hzs hne
    refine List.splitOn_intercalate '/' ?_ (by simpa using hne)
    intro cs hcs
    obtain ⟨z, hz, rfl⟩ := List.mem_map.mp hcs
    exact hzs z hz
  rw [hback xs hxs hx, hback ys hys hy] at hsplit
  exact List.map_injective_iff.mpr (fun _ _ => String.toList_inj.mp) hsplit

lemma tableKey_eq {ident : TableIdent} (h : ident.nsIdent ≠ []) :
    tableKey ident = "/".intercalate (ident.nsIdent ++ [ident.name]) := by
  rw [String.intercalate_append_of_ne_nil h (List.cons_ne_nil _ _), String.intercalate_singleton]
  rfl

theorem keysDistinct_of_no_slash {ι σ : Type} {d : TableCalls ι σ}
    (hsegments : ∀ i, ∀ s ∈ (d.ident i).nsIdent, '/' ∉ s.toList) (hnames : ∀ i, '/' ∉ (d.ident i).name.toList) :
    KeysDistinct d := by
  refine ⟨fun i j hi hj h => intercalate_slash_inj (hsegments i) (hsegments j) hi hj h, fun i j hi hj h => ?_⟩
  have hall : ∀ k, ∀ s ∈ (d.ident k).nsIdent ++ [(d.ident k).name], '/' ∉ s.toList := by
    intro k s hs
    rcases List.mem_append.mp hs with hsegment | hname
    · exact hsegments k s hsegment
    · rw [List.mem_singleton.mp hname]
      exact hnames k
  rw [tableKey_eq hi, tableKey_eq hj] at h
  have happend := intercalate_slash_inj (hall i) (hall j) (by simp) (by simp) h
  obtain ⟨hns, hname⟩ := List.append_inj' happend rfl
  have hident : d.ident i = ⟨(d.ident i).nsIdent, (d.ident i).name⟩ := rfl
  rw [hident, hns, List.singleton_inj.mp hname]

variable {ι σ : Type} [DecidableEq ι] {d : TableCalls ι σ} {w w' : CachedCatalog ι σ} {c c' : Catalog σ}
  {state : IcebergState} {ident : TableIdent}

structure Kept (c c' : Catalog σ) : Prop where
  namespaces : ∀ nsIdent ∈ c.namespaces, nsIdent ∈ c'.namespaces
  tables : ∀ ident ∈ c.tables, ident ∈ c'.tables

/-- What a step of a call can do. -/
inductive CallAdvances (ident : TableIdent) (c : Catalog σ) (state : IcebergState) :
    CreateCall σ → CreateCall σ × Catalog σ × IcebergState → Prop
  | skipNamespace : ident.nsIdent ≠ [] → namespaceKey ident.nsIdent ∈ state.knownNamespaces →
    CallAdvances ident c state .entered (.lookupTable, c, state)
  | checkNamespace : ident.nsIdent ≠ [] → CallAdvances ident c state .entered (.askNamespace, c, state)
  | foundNamespace : ident.nsIdent ∈ c.namespaces →
    CallAdvances ident c state .askNamespace (.rememberNamespace, c, state)
  | missingNamespace : CallAdvances ident c state .askNamespace (.createNamespace, c, state)
  | createdNamespace {c' : Catalog σ} : Kept c c' → ident.nsIdent ∈ c'.namespaces →
    CallAdvances ident c state .createNamespace (.rememberNamespace, c', state)
  | rememberedNamespace : CallAdvances ident c state .rememberNamespace (.lookupTable, c,
      { state with knownNamespaces := namespaceKey ident.nsIdent :: state.knownNamespaces })
  | skipTable : tableKey ident ∈ state.knownTables → CallAdvances ident c state .lookupTable (.loadKnown, c, state)
  | checkTable : CallAdvances ident c state .lookupTable (.askTable, c, state)
  | foundTable : ident ∈ c.tables → CallAdvances ident c state .askTable (.loadExisting, c, state)
  | missingTable : CallAdvances ident c state .askTable (.createTable, c, state)
  | loaded (t : Table σ) : CallAdvances ident c state .loadExisting (.rememberTable t, c, state)
  | createdTable {c' : Catalog σ} (t : Table σ) : Kept c c' → ident ∈ c'.tables →
    CallAdvances ident c state .createTable (.rememberTable t, c', state)
  | rememberedTable (t : Table σ) : CallAdvances ident c state (.rememberTable t) (.returned (.ok t), c,
      { state with knownTables := tableKey ident :: state.knownTables })
  | returns (call : CreateCall σ) (result : Except Error (Table σ)) :
    CallAdvances ident c state call (.returned result, c, state)

theorem callAdvances_advance (schemaBuilder : List NestedField → Option σ) (fieldDefs : List FieldDef)
    (call : CreateCall σ) : CallAdvances ident c state call (call.advance schemaBuilder ident fieldDefs c state) := by
  cases call with
  | entered =>
    simp only [CreateCall.advance]
    split
    · exact .returns _ _
    · rename_i hempty
      have hne : ident.nsIdent ≠ [] := fun hnil => hempty (List.isEmpty_iff.mpr hnil)
      split
      · rename_i hknown
        exact .skipNamespace hne hknown
      · exact .checkNamespace hne
  | askNamespace =>
    simp only [CreateCall.advance]
    split
    · rename_i hfound
      exact .foundNamespace (of_decide_eq_true hfound)
    · exact .missingNamespace
  | createNamespace =>
    simp only [CreateCall.advance, Catalog.createNamespace]
    split
    · rename_i c' hcreate
      split at hcreate
      · cases hcreate
      · cases hcreate
        exact .createdNamespace ⟨fun _ h => List.mem_cons_of_mem _ h, fun _ h => h⟩ List.mem_cons_self
    · rename_i e c' hcreate
      split at hcreate
      · cases hcreate
        exact .returns _ _
      · cases hcreate
  | rememberNamespace => exact .rememberedNamespace
  | lookupTable =>
    simp only [CreateCall.advance]
    split
    · rename_i hknown
      exact .skipTable hknown
    · exact .checkTable
  | loadKnown => exact .returns _ _
  | askTable =>
    simp only [CreateCall.advance]
    split
    · rename_i hfound
      exact .foundTable (of_decide_eq_true hfound)
    · exact .missingTable
  | loadExisting =>
    simp only [CreateCall.advance]
    split
    · exact .loaded _
    · exact .returns _ _
  | createTable =>
    simp only [CreateCall.advance]
    split
    · exact .returns _ _
    · simp only [Catalog.createTable]
      split
      · rename_i t c' hcreate
        split at hcreate
        · cases hcreate
        · cases hcreate
          exact .createdTable _ ⟨fun _ h => h, fun _ h => (AList.mem_insert _).mpr (Or.inr h)⟩
            ((AList.mem_insert _).mpr (Or.inl rfl))
      · rename_i e c' hcreate
        split at hcreate
        · cases hcreate
          exact .returns _ _
        · cases hcreate
  | rememberTable t => exact .rememberedTable t
  | returned result => exact .returns _ _

lemma CallAdvances.kept {call : CreateCall σ} {after : CreateCall σ × Catalog σ × IcebergState}
    (h : CallAdvances ident c state call after) : Kept c after.2.1 := by
  cases h with
  | createdNamespace hkept _ => exact hkept
  | createdTable t hkept _ => exact hkept
  | _ => exact ⟨fun _ h => h, fun _ h => h⟩

/-! ### Soundness -/

/-- The caches are sound: a call leaves out a question only about an item that an earlier step
confirmed or created, and every cached key is that of an item that exists. -/
structure CachesSound (d : TableCalls ι σ) (w : CachedCatalog ι σ) : Prop where
  namespaceSkip : ∀ i, w.calls i = .entered → (w.advance d i).calls i = .lookupTable →
    (d.ident i).nsIdent ∈ w.confirmedNamespaces
  tableSkip : ∀ i, w.calls i = .lookupTable → (w.advance d i).calls i = .loadKnown →
    d.ident i ∈ w.confirmedTables
  cachedNamespaces : ∀ key ∈ w.state.knownNamespaces, ∃ nsIdent ∈ w.catalog.namespaces, namespaceKey nsIdent = key
  cachedTables : ∀ key ∈ w.state.knownTables, ∃ ident ∈ w.catalog.tables, tableKey ident = key

/-- What has been confirmed for a call when it is at a step. -/
def CallConfirmed (ident : TableIdent) (namespaces : List (List String)) (tables : List TableIdent) :
    CreateCall σ → Prop
  | .entered | .returned _ => True
  | .rememberNamespace => ident.nsIdent ≠ [] ∧ ident.nsIdent ∈ namespaces
  | .loadExisting | .rememberTable _ => ident.nsIdent ≠ [] ∧ ident ∈ tables
  | .askNamespace | .createNamespace | .lookupTable | .loadKnown | .askTable | .createTable => ident.nsIdent ≠ []

/-- Every cached key belongs to a call whose item was confirmed, and what was confirmed exists. -/
structure CacheInv (d : TableCalls ι σ) (w : CachedCatalog ι σ) : Prop where
  namespaces : ∀ nsIdent ∈ w.confirmedNamespaces, nsIdent ∈ w.catalog.namespaces
  tables : ∀ ident ∈ w.confirmedTables, ident ∈ w.catalog.tables
  knownNamespaces : ∀ key ∈ w.state.knownNamespaces, ∃ i, (d.ident i).nsIdent ≠ [] ∧
    namespaceKey (d.ident i).nsIdent = key ∧ (d.ident i).nsIdent ∈ w.confirmedNamespaces
  knownTables : ∀ key ∈ w.state.knownTables, ∃ i, (d.ident i).nsIdent ≠ [] ∧
    tableKey (d.ident i) = key ∧ d.ident i ∈ w.confirmedTables
  calls : ∀ i, CallConfirmed (d.ident i) w.confirmedNamespaces w.confirmedTables (w.calls i)

lemma CallConfirmed.mono {namespaces namespaces' : List (List String)} {tables tables' : List TableIdent}
    {call : CreateCall σ} (h : CallConfirmed ident namespaces tables call)
    (hnamespaces : ∀ nsIdent ∈ namespaces, nsIdent ∈ namespaces') (htables : ∀ ident ∈ tables, ident ∈ tables') :
    CallConfirmed ident namespaces' tables' call := by
  cases call with
  | rememberNamespace => exact ⟨h.1, hnamespaces _ h.2⟩
  | loadExisting | rememberTable t => exact ⟨h.1, htables _ h.2⟩
  | _ => exact h

/-- The general step: the catalog keeps what it has, more is confirmed, and one call moves. -/
lemma CacheInv.moved (h : CacheInv d w) {i : ι} {call : CreateCall σ} (hkept : Kept w.catalog w'.catalog)
    (hcalls : w'.calls = Function.update w.calls i call)
    (hmoreNamespaces : ∀ nsIdent ∈ w.confirmedNamespaces, nsIdent ∈ w'.confirmedNamespaces)
    (hmoreTables : ∀ ident ∈ w.confirmedTables, ident ∈ w'.confirmedTables)
    (hnamespaces : ∀ nsIdent ∈ w'.confirmedNamespaces,
      nsIdent ∈ w.confirmedNamespaces ∨ nsIdent ∈ w'.catalog.namespaces)
    (htables : ∀ ident ∈ w'.confirmedTables, ident ∈ w.confirmedTables ∨ ident ∈ w'.catalog.tables)
    (hknownNamespaces : ∀ key ∈ w'.state.knownNamespaces, key ∈ w.state.knownNamespaces ∨
      (d.ident i).nsIdent ≠ [] ∧ namespaceKey (d.ident i).nsIdent = key ∧
        (d.ident i).nsIdent ∈ w'.confirmedNamespaces)
    (hknownTables : ∀ key ∈ w'.state.knownTables, key ∈ w.state.knownTables ∨
      (d.ident i).nsIdent ≠ [] ∧ tableKey (d.ident i) = key ∧ d.ident i ∈ w'.confirmedTables)
    (hcall : CallConfirmed (d.ident i) w'.confirmedNamespaces w'.confirmedTables call) : CacheInv d w' where
  namespaces nsIdent hmem := (hnamespaces nsIdent hmem).elim
    (fun hold => hkept.namespaces nsIdent (h.namespaces nsIdent hold)) id
  tables ident hmem := (htables ident hmem).elim (fun hold => hkept.tables ident (h.tables ident hold)) id
  knownNamespaces key hkey := by
    rcases hknownNamespaces key hkey with hold | hnew
    · obtain ⟨j, hne, heq, hmem⟩ := h.knownNamespaces key hold
      exact ⟨j, hne, heq, hmoreNamespaces _ hmem⟩
    · exact ⟨i, hnew⟩
  knownTables key hkey := by
    rcases hknownTables key hkey with hold | hnew
    · obtain ⟨j, hne, heq, hmem⟩ := h.knownTables key hold
      exact ⟨j, hne, heq, hmoreTables _ hmem⟩
    · exact ⟨i, hnew⟩
  calls j := by
    rw [hcalls]
    by_cases hj : j = i
    · subst hj
      rw [Function.update_self]
      exact hcall
    · rw [Function.update_of_ne hj]
      exact (h.calls j).mono hmoreNamespaces hmoreTables

/-- A call moves without news for the caches. -/
lemma CacheInv.silent (h : CacheInv d w) (i : ι) {call : CreateCall σ} (hkept : Kept w.catalog c')
    (hcall : CallConfirmed (d.ident i) w.confirmedNamespaces w.confirmedTables call) :
    CacheInv d { w with catalog := c', calls := Function.update w.calls i call } :=
  h.moved hkept rfl (fun _ => id) (fun _ => id) (fun _ => Or.inl) (fun _ => Or.inl) (fun _ => Or.inl)
    (fun _ => Or.inl) hcall

lemma CacheInv.namespaceConfirmed (h : CacheInv d w) (i : ι) (hkept : Kept w.catalog c')
    (hne : (d.ident i).nsIdent ≠ []) (hexists : (d.ident i).nsIdent ∈ c'.namespaces) :
    CacheInv d { w with
      catalog := c'
      calls := Function.update w.calls i .rememberNamespace
      confirmedNamespaces := (d.ident i).nsIdent :: w.confirmedNamespaces } := by
  refine h.moved hkept rfl (fun _ => List.mem_cons_of_mem _) (fun _ => id) ?_ (fun _ => Or.inl) (fun _ => Or.inl)
    (fun _ => Or.inl) ⟨hne, List.mem_cons_self⟩
  intro nsIdent hmem
  rcases List.mem_cons.mp hmem with rfl | hold
  · exact Or.inr hexists
  · exact Or.inl hold

lemma CacheInv.tableConfirmed (h : CacheInv d w) (i : ι) {call : CreateCall σ} (hkept : Kept w.catalog c')
    (hexists : d.ident i ∈ c'.tables)
    (hcall : CallConfirmed (d.ident i) w.confirmedNamespaces (d.ident i :: w.confirmedTables) call) :
    CacheInv d { w with
      catalog := c'
      calls := Function.update w.calls i call
      confirmedTables := d.ident i :: w.confirmedTables } := by
  refine h.moved hkept rfl (fun _ => id) (fun _ => List.mem_cons_of_mem _) (fun _ => Or.inl) ?_ (fun _ => Or.inl)
    (fun _ => Or.inl) hcall
  intro ident hmem
  rcases List.mem_cons.mp hmem with rfl | hold
  · exact Or.inr hexists
  · exact Or.inl hold

@[simp] lemma confirmsNamespace_returned (call : CreateCall σ) (result : Except Error (Table σ)) :
    call.confirmsNamespace (.returned result) = false := by
  cases call <;> rfl

@[simp] lemma confirmsTable_returned (call : CreateCall σ) (result : Except Error (Table σ)) :
    call.confirmsTable (.returned result) = false := by
  cases call <;> rfl

lemma advance_parts (w : CachedCatalog ι σ) (i : ι) :
    ∃ call catalog state, CallAdvances (d.ident i) w.catalog w.state (w.calls i) (call, catalog, state) ∧
      w.advance d i =
        { catalog := catalog
          state := state
          calls := Function.update w.calls i call
          confirmedNamespaces :=
            if (w.calls i).confirmsNamespace call then (d.ident i).nsIdent :: w.confirmedNamespaces
            else w.confirmedNamespaces
          confirmedTables :=
            if (w.calls i).confirmsTable call then d.ident i :: w.confirmedTables else w.confirmedTables } :=
  ⟨_, _, _, callAdvances_advance d.schemaBuilder (d.fieldDefs i) (w.calls i), rfl⟩

lemma advance_call (w : CachedCatalog ι σ) (i : ι) :
    ∃ catalog state,
      CallAdvances (d.ident i) w.catalog w.state (w.calls i) ((w.advance d i).calls i, catalog, state) := by
  obtain ⟨call, catalog, state, hadvances, heq⟩ := advance_parts (d := d) w i
  have hcall : (w.advance d i).calls i = call := by
    rw [heq]
    exact Function.update_self _ _ _
  exact ⟨catalog, state, hcall ▸ hadvances⟩

theorem CacheInv.advance (h : CacheInv d w) (i : ι) : CacheInv d (w.advance d i) := by
  obtain ⟨call, catalog, state, hadvances, heq⟩ := advance_parts (d := d) w i
  have hconfirmed := h.calls i
  have hkept : Kept w.catalog catalog := hadvances.kept
  rw [heq]
  clear heq
  generalize w.calls i = before at hadvances hconfirmed ⊢
  cases hadvances with
  | skipNamespace hne _ | checkNamespace hne => exact h.silent i hkept hne
  | foundNamespace hexists | createdNamespace _ hexists => exact h.namespaceConfirmed i hkept hconfirmed hexists
  | missingNamespace | skipTable _ | checkTable | missingTable | loaded t => exact h.silent i hkept hconfirmed
  | foundTable hexists | createdTable t _ hexists =>
    exact h.tableConfirmed i hkept hexists ⟨hconfirmed, List.mem_cons_self⟩
  | rememberedNamespace =>
    refine h.moved hkept rfl (fun _ => id) (fun _ => id) (fun _ => Or.inl) (fun _ => Or.inl) ?_ (fun _ => Or.inl)
      hconfirmed.1
    intro key hkey
    rcases List.mem_cons.mp hkey with rfl | hold
    · exact Or.inr ⟨hconfirmed.1, rfl, hconfirmed.2⟩
    · exact Or.inl hold
  | rememberedTable t =>
    refine h.moved hkept rfl (fun _ => id) (fun _ => id) (fun _ => Or.inl) (fun _ => Or.inl) (fun _ => Or.inl) ?_
      trivial
    intro key hkey
    rcases List.mem_cons.mp hkey with rfl | hold
    · exact Or.inr ⟨hconfirmed.1, rfl, hconfirmed.2⟩
    · exact Or.inl hold
  | returns result =>
    simp only [confirmsNamespace_returned, confirmsTable_returned, Bool.false_eq_true, if_false]
    exact h.silent i hkept trivial

theorem CacheInv.step (h : CacheInv d w) {e : CacheEvent ι σ} (hstep : CacheStep d w e w') : CacheInv d w' := by
  cases hstep with
  | advance i => exact h.advance i
  | fail i applied hcall =>
    refine h.silent i ?_ trivial
    cases applied with
    | false => exact ⟨fun _ => id, fun _ => id⟩
    | true =>
      obtain ⟨call, catalog, state, hadvances, heq⟩ := advance_parts (d := d) w i
      rw [if_pos rfl, heq]
      exact hadvances.kept
  | others hnamespaces htables =>
    exact {
      namespaces := fun nsIdent hmem => hnamespaces nsIdent (h.namespaces nsIdent hmem)
      tables := fun ident hmem => htables ident (h.tables ident hmem)
      knownNamespaces := h.knownNamespaces
      knownTables := h.knownTables
      calls := h.calls }

omit [DecidableEq ι] in
lemma cacheInv_start (namespaces : List (List String)) (tables : AList (fun _ : TableIdent => σ)) :
    CacheInv d (CachedCatalog.start namespaces tables) where
  namespaces _ hmem := absurd hmem List.not_mem_nil
  tables _ hmem := absurd hmem List.not_mem_nil
  knownNamespaces _ hmem := absurd hmem List.not_mem_nil
  knownTables _ hmem := absurd hmem List.not_mem_nil
  calls _ := trivial

theorem CacheInv.cachesSound (h : CacheInv d w) (hkeys : KeysDistinct d) : CachesSound d w where
  namespaceSkip i hentered hskipped := by
    obtain ⟨catalog, state, hadvances⟩ := advance_call (d := d) w i
    rw [hentered, hskipped] at hadvances
    cases hadvances with
    | skipNamespace hne hknown =>
      obtain ⟨j, hnej, hkey, hconfirmed⟩ := h.knownNamespaces _ hknown
      rw [hkeys.namespaces i j hne hnej hkey.symm]
      exact hconfirmed
  tableSkip i hlookup hskipped := by
    obtain ⟨catalog, state, hadvances⟩ := advance_call (d := d) w i
    have hne := h.calls i
    rw [hlookup, hskipped] at hadvances
    rw [hlookup] at hne
    cases hadvances with
    | skipTable hknown =>
      obtain ⟨j, hnej, hkey, hconfirmed⟩ := h.knownTables _ hknown
      rw [hkeys.tables i j hne hnej hkey.symm]
      exact hconfirmed
  cachedNamespaces key hkey := by
    obtain ⟨i, _, hi, hconfirmed⟩ := h.knownNamespaces key hkey
    exact ⟨_, h.namespaces _ hconfirmed, hi⟩
  cachedTables key hkey := by
    obtain ⟨i, _, hi, hconfirmed⟩ := h.knownTables key hkey
    exact ⟨_, h.tables _ hconfirmed, hi⟩

/-- Steps of calls, with nothing in between. -/
lemma run_advances (d : TableCalls ι σ) (w : CachedCatalog ι σ) (is : List ι) :
    Run (CacheStep d) w (is.map .advance) (is.foldl (fun w i => w.advance d i) w) := by
  induction is generalizing w with
  | nil => exact .nil w
  | cons i is ih => exact .cons (.advance i) (ih (w.advance d i))

/-- Two calls for tables of the same name in two namespaces. -/
def twoNamespaces (first second : List String) : TableCalls Bool Unit :=
  ⟨fun i => ⟨if i then second else first, "events"⟩, fun _ => [], fun _ => some ()⟩

/-- In every run of calls whose items have different keys, the caches are sound. -/
theorem caches_sound (hkeys : KeysDistinct d) {namespaces : List (List String)}
    {tables : AList (fun _ : TableIdent => σ)} {es : List (CacheEvent ι σ)}
    (hrun : Run (CacheStep d) (.start namespaces tables) es w) : CachesSound d w := by
  have hinv : CacheInv d w :=
    hrun.invariant (CacheInv d) (fun _ _ _ h hstep => h.step hstep) (cacheInv_start namespaces tables)
  exact hinv.cachesSound hkeys

/-- The second call asks for its own namespace, although the first one has filled the caches. -/
theorem caches_sound_two :
    CachesSound (twoNamespaces ["a", "b"] ["c"])
      ((List.replicate 8 false ++ [true]).foldl (fun w i => w.advance (twoNamespaces ["a", "b"] ["c"]) i)
        (.start [] ∅)) := by
  refine caches_sound (keysDistinct_of_no_slash ?_ ?_) (run_advances _ (.start [] ∅) _)
  · decide
  · decide

/-- After a complete call for the namespace of two segments, a call for the one segment that holds
the separator skips the question whether its namespace exists. -/
theorem joined_key_confuses_namespaces :
    ¬ ∀ (d : TableCalls Bool Unit) (namespaces : List (List String)) (tables : AList (fun _ : TableIdent => Unit))
      (es : List (CacheEvent Bool Unit)) (w : CachedCatalog Bool Unit),
      Run (CacheStep d) (.start namespaces tables) es w → CachesSound d w := by
  intro h
  have hsound := h (twoNamespaces ["a", "b"] ["a/b"]) [] ∅ _ _
    (run_advances _ (.start [] ∅) (List.replicate 8 false))
  have hconfirmed := hsound.namespaceSkip true rfl rfl
  revert hconfirmed
  decide

/-- A call alone up to the cache of the tables, in a catalog that has its namespace. -/
lemma foldl_advance_namespace {i : ι} {namespaces : List (List String)} {tables : AList (fun _ : TableIdent => σ)}
    (hne : (d.ident i).nsIdent ≠ []) (hmem : (d.ident i).nsIdent ∈ namespaces) :
    [i, i, i].foldl (fun w i => w.advance d i) (.start namespaces tables) =
      { (CachedCatalog.start namespaces tables : CachedCatalog ι σ) with
        state := ⟨[namespaceKey (d.ident i).nsIdent], []⟩
        calls := Function.update (fun _ => .entered) i .lookupTable
        confirmedNamespaces := [(d.ident i).nsIdent] } := by
  simp [CachedCatalog.advance, CachedCatalog.start, CreateCall.advance, hne, hmem, Catalog.namespaceExists,
    CreateCall.confirmsNamespace, CreateCall.confirmsTable]

/-- A complete call alone, in a catalog that has its table. -/
lemma foldl_advance_table {i : ι} {namespaces : List (List String)} {tables : AList (fun _ : TableIdent => σ)}
    {schema : σ} (hne : (d.ident i).nsIdent ≠ []) (hmem : (d.ident i).nsIdent ∈ namespaces)
    (htable : tables.lookup (d.ident i) = some schema) :
    (List.replicate 7 i).foldl (fun w i => w.advance d i) (.start namespaces tables) =
      { (CachedCatalog.start namespaces tables : CachedCatalog ι σ) with
        state := ⟨[namespaceKey (d.ident i).nsIdent], [tableKey (d.ident i)]⟩
        calls := Function.update (fun _ => .entered) i (.returned (.ok ⟨d.ident i, schema⟩))
        confirmedNamespaces := [(d.ident i).nsIdent]
        confirmedTables := [d.ident i] } := by
  have hin : d.ident i ∈ tables := AList.lookup_isSome.mp (by rw [htable]; rfl)
  simp [CachedCatalog.advance, CachedCatalog.start, CreateCall.advance, hne, hmem, Catalog.namespaceExists,
    CreateCall.confirmsNamespace, CreateCall.confirmsTable, Catalog.tableExists, Catalog.loadTable, htable, hin]

/-- Where two items have one key, a call for the second leaves out a question after a call for the
first, so no weaker condition makes the caches sound in all runs. -/
theorem keysDistinct_of_sound [Nonempty σ] (h : ∀ (namespaces : List (List String))
    (tables : AList (fun _ : TableIdent => σ)) (es : List (CacheEvent ι σ)) (w : CachedCatalog ι σ),
    Run (CacheStep d) (.start namespaces tables) es w → CachesSound d w) : KeysDistinct d := by
  constructor
  · intro i j hi hj hkey
    by_cases hij : j = i
    · rw [hij]
    have hsound := h [(d.ident i).nsIdent] ∅ _ _ (run_advances d _ [i, i, i])
    rw [foldl_advance_namespace hi List.mem_cons_self] at hsound
    have hmem := hsound.namespaceSkip j (by simp [hij])
      (by simp [CachedCatalog.advance, CachedCatalog.start, CreateCall.advance, hij, hj, hkey])
    exact (List.mem_singleton.mp hmem).symm
  · intro i j hi hj hkey
    by_cases hij : j = i
    · rw [hij]
    obtain ⟨schema⟩ := ‹Nonempty σ›
    have hlookup : (AList.insert (d.ident i) schema (∅ : AList (fun _ : TableIdent => σ))).lookup (d.ident i) =
      some schema := AList.lookup_insert _
    have hsound (more : List ι) := h [(d.ident i).nsIdent, (d.ident j).nsIdent]
      (AList.insert (d.ident i) schema ∅) _ _ (run_advances d _ (List.replicate 7 i ++ more))
    simp only [List.foldl_append, foldl_advance_table hi List.mem_cons_self hlookup] at hsound
    -- The second call asks for its namespace unless the first has left the same key.
    have hmem : d.ident j ∈ [d.ident i] := by
      by_cases hns : namespaceKey (d.ident j).nsIdent = namespaceKey (d.ident i).nsIdent
      · have hskip := (hsound [j]).tableSkip j
        simpa [CachedCatalog.advance, CachedCatalog.start, CreateCall.advance, hij, hj, hns, hkey,
          CreateCall.confirmsTable] using hskip
      · have hskip := (hsound [j, j, j]).tableSkip j
        simpa [CachedCatalog.advance, CachedCatalog.start, CreateCall.advance, hij, hj, hns, hkey,
          Catalog.namespaceExists, CreateCall.confirmsTable] using hskip
    exact (List.mem_singleton.mp hmem).symm

end MicewriterEngine.Proofs
