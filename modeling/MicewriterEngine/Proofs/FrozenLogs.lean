import MicewriterEngine.Proofs.CrashRecovery

/-!
# Frozen column families stay as they are

`new` takes up the column family with the largest timestamp. While the clock of every
rotation is ahead of the timestamps in the directory, this is the one that was active
before, over any number of crashes. So a column family that was frozen once is never
written again: it keeps its records until it is dropped, and is not created anew.
-/

namespace MicewriterEngine.Proofs
open Lib RocksStore

variable {h h' : History} {s : RocksStore} {e : Event}

/-- The time in the name, zero for the initial one. -/
def stamp (name : String) : ℕ := (activeCfTimestamp name).getD 0

lemma stamp_rotatedCf {ts : ℕ} (hts : ts < 2 ^ 64) : stamp (rotatedCf ts) = ts := by
  rw [stamp, activeCfTimestamp_rotatedCf hts, Option.getD_some]

/-- The clock of a rotation is ahead of the directory, and no caller drops the active column family. -/
def Disciplined (h : History) : Event → Prop
  | .call op | .crashIn op =>
    match op with
    | .appendBatch _ _ => True
    | .rotate ts _ _ => ts < 2 ^ 64 ∧ ∀ name ∈ h.process.db, IsEngineCf name → stamp name < ts
    | .dropFrozenCf name _ => ∀ s, h.process = .up s → name ≠ s.activeCf
  | _ => True

/-- Every call writes to the active column family, makes a newer one active, drops a frozen one, or
leaves the column families alone. -/
inductive DirectoryChange (db : Db) (active : String) : Db → String → Prop
  | same : DirectoryChange db active db active
  | wrote (cf : ColumnFamily) (hactive : active ∈ db) :
      DirectoryChange db active (db.insert active cf) active
  | rotated {ts : ℕ} (hts : ts < 2 ^ 64) (hnewer : ∀ name ∈ db, IsEngineCf name → stamp name < ts) :
      DirectoryChange db active (db.insert (rotatedCf ts) SortedMap.empty) (rotatedCf ts)
  | dropped {name : String} (hfrozen : name ≠ active) : DirectoryChange db active (db.erase name) active

lemma directoryChange_of_call (hup : h.process = .up s) {op : Op} (hcall : Disciplined h (.call op)) :
    DirectoryChange s.db s.activeCf (s.perform op).2.db (s.perform op).2.activeCf := by
  cases op with
  | appendBatch values writeOk =>
    rcases appendBatch_cases s values writeOk with
      ⟨-, h₀⟩ | ⟨-, e, he⟩ | ⟨-, s', hs', hskip⟩ | ⟨cf, full, s', hcf, hs', hwrote⟩
    · simp only [RocksStore.perform, h₀]
      exact .same
    · simp only [RocksStore.perform, he]
      exact .same
    · simp only [RocksStore.perform, hs', hskip.db, hskip.activeCf]
      exact .same
    · simp only [RocksStore.perform, hs', hwrote.db, hwrote.activeCf]
      refine .wrote _ ?_
      rw [← AList.lookup_isSome, hcf, Option.isSome_some]
  | rotate ts createOk draw =>
    obtain ⟨hts, hnewer⟩ := hcall
    rw [hup] at hnewer
    rcases rotate_cases s ts createOk draw with herr | ⟨s', hs', hr⟩
    · simp only [RocksStore.perform, herr]
      exact .same
    · simp only [RocksStore.perform, hs', hr.db, hr.activeCf]
      exact .rotated hts hnewer
  | dropFrozenCf name dropOk =>
    rcases dropFrozenCf_cases s name dropOk with herr | ⟨s', hs', hd⟩
    · simp only [RocksStore.perform, herr]
      exact .same
    · simp only [RocksStore.perform, hs', hd.db, hd.activeCf]
      exact .dropped (hcall s hup)

/-- An open creates the initial column family where there is none of the engine's, and no other one. -/
lemma mem_of_open {disk : Option Db} {answer : Option (List String)} {db : Db} (hlist : Db.ListsCf disk answer)
    (hopen : Db.openCfDescriptors disk (answer.getD [initialCf]) = some db) {name : String} (hname : name ∈ db)
    (hengine : IsEngineCf name) :
    name ∈ disk.getD ∅ ∨ name = initialCf ∧ ∀ other ∈ disk.getD ∅, IsEngineCf other → other = initialCf := by
  have hne : ∀ other, IsEngineCf other → other ≠ Db.defaultCf := fun other hother heq =>
    not_isEngineCf_defaultCf (heq ▸ hother)
  have hmem := (Db.openCfDescriptors_some hopen).1
  cases answer with
  | some names =>
    obtain ⟨db₀, rfl, hperm⟩ := hlist names rfl
    have hlisted := (List.mem_cons.mp ((hmem name).mp hname)).resolve_left (hne name hengine)
    exact Or.inl (AList.mem_keys.mpr (hperm.mem_iff.mp hlisted))
  | none =>
    have honly : ∀ other ∈ db, IsEngineCf other → other = initialCf := fun other hother hotherEngine =>
      List.mem_singleton.mp ((List.mem_cons.mp ((hmem other).mp hother)).resolve_left (hne other hotherEngine))
    refine Or.inr ⟨honly name hname hengine, fun other hother hotherEngine => ?_⟩
    exact honly other (mem_of_grown (grown_of_opened hopen) hother) hotherEngine

def DistinctStamps (db : Db) : Prop :=
  ∀ a ∈ db, ∀ b ∈ db, IsEngineCf a → IsEngineCf b → stamp a = stamp b → a = b

structure NewestActive (db : Db) (active : String) : Prop where
  engine : IsEngineCf active
  newest : ∀ name ∈ db, IsEngineCf name → active ∈ db ∧ stamp name ≤ stamp active

variable {db db' : Db} {active active' name : String}

lemma DirectoryChange.distinct (hchange : DirectoryChange db active db' active') (hdistinct : DistinctStamps db) :
    DistinctStamps db' := by
  cases hchange with
  | same => exact hdistinct
  | wrote cf hactive =>
    have hold : ∀ {a}, a ∈ db.insert active cf → a ∈ db := by
      intro a ha
      rcases (AList.mem_insert _).mp ha with rfl | ha
      · exact hactive
      · exact ha
    exact fun a ha b hb => hdistinct a (hold ha) b (hold hb)
  | @rotated ts hts hnewer =>
    intro a ha b hb hengineA hengineB hsame
    rcases (AList.mem_insert _).mp ha with rfl | ha
    · rcases (AList.mem_insert _).mp hb with rfl | hb
      · rfl
      · have hlt := hnewer b hb hengineB
        rw [stamp_rotatedCf hts] at hsame
        omega
    · rcases (AList.mem_insert _).mp hb with rfl | hb
      · have hlt := hnewer a ha hengineA
        rw [stamp_rotatedCf hts] at hsame
        omega
      · exact hdistinct a ha b hb hengineA hengineB hsame
  | dropped hfrozen =>
    intro a ha b hb
    exact hdistinct a (AList.mem_erase.mp ha).2 b (AList.mem_erase.mp hb).2

lemma DirectoryChange.newestActive (hchange : DirectoryChange db active db' active')
    (hnewest : NewestActive db active) :
    NewestActive db' active' := by
  cases hchange with
  | same => exact hnewest
  | wrote cf hactive =>
    refine ⟨hnewest.engine, fun name hname hengine => ⟨(AList.mem_insert _).mpr (Or.inl rfl), ?_⟩⟩
    rcases (AList.mem_insert _).mp hname with rfl | hname
    · exact le_rfl
    · exact (hnewest.newest name hname hengine).2
  | @rotated ts hts hnewer =>
    refine ⟨isEngineCf_rotatedCf hts, fun name hname hengine => ⟨(AList.mem_insert _).mpr (Or.inl rfl), ?_⟩⟩
    rcases (AList.mem_insert _).mp hname with rfl | hname
    · exact le_rfl
    · rw [stamp_rotatedCf hts]
      exact (hnewer name hname hengine).le
  | dropped hfrozen =>
    refine ⟨hnewest.engine, fun name hname hengine => ?_⟩
    obtain ⟨hactive, hle⟩ := hnewest.newest name (AList.mem_erase.mp hname).2 hengine
    exact ⟨AList.mem_erase.mpr ⟨Ne.symm hfrozen, hactive⟩, hle⟩

/-- A column family that is older than another one, with its contents unless it is dropped. -/
structure Frozen (name : String) (cf : ColumnFamily) (db : Db) : Prop where
  kept : name ∈ db → db.lookup name = some cf
  older : ∃ top ∈ db, IsEngineCf top ∧ stamp name < stamp top

variable {cf : ColumnFamily}

lemma Frozen.ne_active (hfrozen : Frozen name cf db) (hnewest : NewestActive db active) : name ≠ active := by
  rintro rfl
  obtain ⟨top, htop, hengine, hlt⟩ := hfrozen.older
  have hle := (hnewest.newest top htop hengine).2
  omega

lemma DirectoryChange.frozen (hchange : DirectoryChange db active db' active') (hnewest : NewestActive db active)
    (hfrozen : Frozen name cf db) : Frozen name cf db' := by
  have hne := hfrozen.ne_active hnewest
  obtain ⟨hkept, top, htop, hengine, hlt⟩ := hfrozen
  cases hchange with
  | same => exact ⟨hkept, top, htop, hengine, hlt⟩
  | wrote cf' hactive =>
    refine ⟨fun hname => ?_, top, (AList.mem_insert _).mpr (Or.inr htop), hengine, hlt⟩
    rw [AList.lookup_insert_ne hne]
    exact hkept (((AList.mem_insert _).mp hname).resolve_left hne)
  | @rotated ts hts hnewer =>
    -- the new column family is later than `top`, which is later than this one
    have hother : name ≠ rotatedCf ts := by
      rintro rfl
      have hle := hnewer top htop hengine
      rw [stamp_rotatedCf hts] at hlt
      omega
    refine ⟨fun hname => ?_, top, (AList.mem_insert _).mpr (Or.inr htop), hengine, hlt⟩
    rw [AList.lookup_insert_ne hother]
    exact hkept (((AList.mem_insert _).mp hname).resolve_left hother)
  | @dropped gone hgone =>
    obtain ⟨hactive, hle⟩ := hnewest.newest top htop hengine
    refine ⟨fun hname => ?_, active, AList.mem_erase.mpr ⟨Ne.symm hgone, hactive⟩, hnewest.engine, by omega⟩
    obtain ⟨hother, hmem⟩ := AList.mem_erase.mp hname
    rw [AList.lookup_erase_ne hother]
    exact hkept hmem

/-- A directory in which the first missing column families of an open are created. -/
def OpenedFrom (disk : Option Db) (db : Db) : Prop :=
  Grown (disk.getD ∅) db ∧ ∀ name ∈ db, IsEngineCf name →
    name ∈ disk.getD ∅ ∨ name = initialCf ∧ ∀ other ∈ disk.getD ∅, IsEngineCf other → other = initialCf

lemma OpenedFrom.distinct {disk : Option Db} (hopened : OpenedFrom disk db) (hdistinct : DistinctStamps (disk.getD ∅)) :
    DistinctStamps db := by
  intro a ha b hb hengineA hengineB hsame
  rcases hopened.2 a ha hengineA with haOld | ⟨haInitial, honly⟩
  · rcases hopened.2 b hb hengineB with hbOld | ⟨hbInitial, honly⟩
    · exact hdistinct a haOld b hbOld hengineA hengineB hsame
    · rw [honly a haOld hengineA, hbInitial]
  · rcases hopened.2 b hb hengineB with hbOld | ⟨hbInitial, -⟩
    · rw [haInitial, honly b hbOld hengineB]
    · rw [haInitial, hbInitial]

lemma OpenedFrom.frozen {disk : Option Db} (hopened : OpenedFrom disk db) (hfrozen : Frozen name cf (disk.getD ∅))
    (hengine : IsEngineCf name) : Frozen name cf db := by
  obtain ⟨hkept, top, htop, htopEngine, hlt⟩ := hfrozen
  refine ⟨fun hname => ?_, top, mem_of_grown hopened.1 htop, htopEngine, hlt⟩
  have hold : name ∈ disk.getD ∅ := by
    rcases hopened.2 name hname hengine with hold | ⟨rfl, honly⟩
    · exact hold
    · rw [honly top htop htopEngine] at hlt
      exact absurd hlt (lt_irrefl _)
  rcases hopened.1 name with hsame | ⟨hnot, -⟩
  · rw [hsame]
    exact hkept hold
  · exact absurd hold hnot

lemma openedFrom_open {disk : Option Db} {answer : Option (List String)} (hlist : Db.ListsCf disk answer)
    (hopen : Db.openCfDescriptors disk (answer.getD [initialCf]) = some db) : OpenedFrom disk db :=
  ⟨grown_of_opened hopen, fun _ hname hengine => mem_of_open hlist hopen hname hengine⟩

lemma openedFrom_crash {disk : Option Db} {answer : Option (List String)} (hlist : Db.ListsCf disk answer)
    (hopen : Db.openCfDescriptors disk (answer.getD [initialCf]) = some db) (created : ℕ) :
    OpenedFrom disk ((disk.getD ∅).createMissing (Db.defaultCf :: (answer.getD [initialCf]).take created)) := by
  refine ⟨grown_createMissing _ _, fun name hname hengine => ?_⟩
  rcases (Db.mem_createMissing _ _ _).mp hname with hold | hnew
  · exact Or.inl hold
  · refine mem_of_open hlist hopen (((Db.openCfDescriptors_some hopen).1 name).mpr ?_) hengine
    exact (List.cons_subset_cons _ (List.take_subset _ _)) hnew

/-! ### Histories -/

structure DatedHistory (h : History) : Prop where
  distinct : DistinctStamps h.process.db
  active : ∀ s, h.process = .up s → NewestActive s.db s.activeCf

/-- A step keeps the dates and every frozen column family. -/
theorem DatedHistory.step (hinv : DatedHistory h) (hallowed : Disciplined h e) (hstep : HistoryStep h e h') :
    DatedHistory h' ∧ ∀ name cf, IsEngineCf name → Frozen name cf h.process.db → Frozen name cf h'.process.db := by
  cases hstep with
  | @call s op hup =>
    have hdistinct := hinv.distinct
    have hnewest := hinv.active s hup
    rw [hup] at hdistinct ⊢
    have hchange := directoryChange_of_call hup hallowed
    refine ⟨⟨hchange.distinct hdistinct, ?_⟩, fun _ _ _ hfrozen => hchange.frozen hnewest hfrozen⟩
    rintro _ ⟨⟩
    exact hchange.newestActive hnewest
  | @crash s hup =>
    have hdistinct := hinv.distinct
    rw [hup] at hdistinct ⊢
    exact ⟨⟨hdistinct, fun _ hdown => nomatch hdown⟩, fun _ _ _ hfrozen => hfrozen⟩
  | @crashIn s op hup =>
    have hdistinct := hinv.distinct
    have hnewest := hinv.active s hup
    rw [hup] at hdistinct ⊢
    have hchange := @directoryChange_of_call _ _ hup op hallowed
    exact ⟨⟨hchange.distinct hdistinct, fun _ hdown => nomatch hdown⟩,
      fun _ _ _ hfrozen => hchange.frozen hnewest hfrozen⟩
  | @opened disk env flushSizeBytes flushSizeJitterBytes s hdown hlist hnew =>
    have hdistinct := hinv.distinct
    rw [hdown] at hdistinct ⊢
    have hopened := openedFrom_open hlist (new_ok hnew).1
    obtain ⟨-, -, -, hactive, hengine, hnewest⟩ := new_covers hnew hlist
    refine ⟨⟨hopened.distinct hdistinct, ?_⟩, fun _ _ hname hfrozen => hopened.frozen hfrozen hname⟩
    rintro _ ⟨⟩
    exact ⟨hengine, fun name hname hnameEngine => ⟨hactive ⟨name, hname, hnameEngine⟩, hnewest name hname hnameEngine⟩⟩
  | openFailed hdown hlist hnew => exact ⟨hinv, fun _ _ _ hfrozen => hfrozen⟩
  | @crashInOpen disk listCf db created hdown hlist hopen =>
    have hdistinct := hinv.distinct
    rw [hdown] at hdistinct ⊢
    have hopened := openedFrom_crash hlist hopen created
    exact ⟨⟨hopened.distinct hdistinct, fun _ hup => nomatch hup⟩,
      fun _ _ hname hfrozen => hopened.frozen hfrozen hname⟩

theorem datedHistory_of_run {es : List Event} (hrun : Run (Guarded HistoryStep Disciplined) .empty es h) :
    DatedHistory h := by
  refine hrun.invariant DatedHistory (fun _ _ _ hinv hstep => (hinv.step hstep.1 hstep.2).1) ?_
  exact ⟨fun a ha => absurd ha (AList.notMem_empty a), fun _ hup => nomatch hup⟩

/-- A run keeps the dates and every frozen column family. -/
theorem frozen_of_run (hinv : DatedHistory h) (hengine : IsEngineCf name) (hfrozen : Frozen name cf h.process.db)
    {fs : List Event} (hrun : Run (Guarded HistoryStep Disciplined) h fs h') :
    DatedHistory h' ∧ Frozen name cf h'.process.db := by
  refine hrun.invariant (fun h => DatedHistory h ∧ Frozen name cf h.process.db) ?_ ⟨hinv, hfrozen⟩
  rintro h e h' ⟨hinv, hfrozen⟩ ⟨hallowed, hstep⟩
  exact ⟨(hinv.step hallowed hstep).1, (hinv.step hallowed hstep).2 name cf hengine hfrozen⟩

/-- A frozen column family that was dropped is never created again. -/
lemma gone_of_run (hinv : DatedHistory h) (hengine : IsEngineCf name) (hfrozen : Frozen name cf h.process.db)
    (hgone : name ∉ h.process.db) {fs : List Event} (hrun : Run (Guarded HistoryStep Disciplined) h fs h') :
    name ∉ h'.process.db := by
  intro hmem
  -- while it does not exist it is frozen with any contents, so it would have two when created
  have hany : ∀ cf', h'.process.db.lookup name = some cf' := by
    intro cf'
    have hstart : Frozen name cf' h.process.db := ⟨fun hname => absurd hname hgone, hfrozen.older⟩
    exact (frozen_of_run hinv hengine hstart hrun).2.kept hmem
  have hsame := Option.some.inj ((hany (SortedMap.empty.insert [] [])).symm.trans (hany SortedMap.empty))
  have hvalue := SortedMap.mem_values_insert (SortedMap.empty : ColumnFamily) [] []
  rw [hsame, SortedMap.values_empty] at hvalue
  cases hvalue

/-- A column family that is not the active one keeps its records as they are until it is dropped. It is
never active again and, once dropped, never created again, whatever calls, crashes and opens follow. -/
theorem frozen_never_written {es fs : List Event} (hrun : Run (Guarded HistoryStep Disciplined) .empty es h)
    (hup : h.process = .up s) {name : String} {cf : ColumnFamily} (hengine : IsEngineCf name)
    (hcf : s.db.lookup name = some cf) (hfrozen : name ≠ s.activeCf)
    (hlater : Run (Guarded HistoryStep Disciplined) h fs h') :
    (h'.process.db.lookup name = some cf ∨ name ∉ h'.process.db) ∧
      (∀ s', h'.process = .up s' → s'.activeCf ≠ name) ∧
        (name ∉ h'.process.db → ∀ gs h'', Run (Guarded HistoryStep Disciplined) h' gs h'' → name ∉ h''.process.db) := by
  have hinv := datedHistory_of_run hrun
  have hname : name ∈ s.db := by
    rw [← AList.lookup_isSome, hcf, Option.isSome_some]
  have hstart : Frozen name cf h.process.db := by
    have hdistinct := hinv.distinct
    obtain ⟨hactiveEngine, hnewest⟩ := hinv.active s hup
    obtain ⟨hactive, hle⟩ := hnewest name hname hengine
    rw [hup] at hdistinct ⊢
    refine ⟨fun _ => hcf, s.activeCf, hactive, hactiveEngine, lt_of_le_of_ne hle (fun hsame => hfrozen ?_)⟩
    exact hdistinct name hname s.activeCf hactive hengine hactiveEngine hsame
  obtain ⟨hdated, hkept⟩ := frozen_of_run hinv hengine hstart hlater
  refine ⟨?_, fun s' hup' heq => ?_, fun hgone gs h'' hfurther => gone_of_run hdated hengine hkept hgone hfurther⟩
  · by_cases hmem : name ∈ h'.process.db
    · exact Or.inl (hkept.kept hmem)
    · exact Or.inr hmem
  · rw [hup'] at hkept
    exact hkept.ne_active (hdated.active s' hup') heq.symm

/-- The process restarts after a rotation, goes on in the column family that was active, and drops
the one that was frozen. -/
theorem frozen_never_written_restart :
    ∃ (h' : History) (cf : ColumnFamily), (∃ s', h'.process = .up s' ∧ s'.activeCf = "active_7") ∧
      cf.values = [[1]] ∧ (h'.process.db.lookup "active" = some cf ∨ "active" ∉ h'.process.db) ∧
        (∀ s', h'.process = .up s' → s'.activeCf ≠ "active") ∧
          ("active" ∉ h'.process.db →
            ∀ gs h'', Run (Guarded HistoryStep Disciplined) h' gs h'' → "active" ∉ h''.process.db) := by
  have hclock : ∀ name ∈ (freshStore.appendBatch [[1]] true).2.db, IsEngineCf name → stamp name < 7 := by
    intro name hname _
    rcases List.mem_pair.mp (show name ∈ ["active", "default"] from hname) with rfl | rfl <;> decide
  have hrun := (.cons ⟨trivial, .opened rfl (listsCf_none none) new_freshStore⟩ (.cons ⟨trivial, .call _ rfl⟩
    (.cons ⟨⟨by decide, hclock⟩, .call _ rfl⟩ (.nil _))) :
      Run (Guarded HistoryStep Disciplined) History.empty [.openStore ⟨none, true, true, 0⟩ 0 0,
        .call (.appendBatch [[1]] true), .call (.rotate 7 true 0)] _)
  refine ⟨_, _, ?_, ?_, @frozen_never_written _ _ _ _
    [.crash, .openStore ⟨some ["active_7", "active", "default"], true, true, 0⟩ 0 0,
      .call (.appendBatch [[2]] true), .call (.dropFrozenCf "active" true)] hrun
    rfl "active" _ rfl rfl (by decide) (.cons ⟨trivial, .crash rfl⟩ (.cons ⟨trivial, .opened rfl (listsCf_keys rfl) rfl⟩
      (.cons ⟨trivial, .call _ rfl⟩ (.cons ⟨by rintro s ⟨⟩; decide, .call _ rfl⟩ (.nil _)))))⟩
  · exact ⟨_, rfl, rfl⟩
  · rfl

end MicewriterEngine.Proofs
