import MicewriterEngine.Model.Committer
import MicewriterEngine.Proofs.StoreSteps

/-!
# What a batch of the committer leaves behind

The commit decides all column families of a batch together. A failed commit puts them all
back. After a successful one a drop that fails is taken for done, and its column family
is then known to nobody.
-/

namespace MicewriterEngine.Proofs

variable {δ : Type} {s : RocksStore} {tableName : String} {batch : List (CommitRequest δ × DropOutcome)}

/-- The data files of a batch. -/
def batchFiles (batch : List (CommitRequest δ × DropOutcome)) : List δ :=
  batch.flatMap (fun task => task.1.tableDataFiles.flatMap Prod.snd)

/-- Each request is for the one table of the engine. -/
def PinnedTo (tableName : String) (batch : List (CommitRequest δ × DropOutcome)) : Prop :=
  ∀ task ∈ batch, task.1.tableDataFiles.map Prod.fst = [tableName]

/-- All data files were committed in one call, which is not made when there are none. -/
def AllCommitted (tableName : String) (batch : List (CommitRequest δ × DropOutcome)) (r : BatchResult δ) : Prop :=
  batchFiles batch = [] ∧ r.commits = [] ∨ r.commits = [(tableName, batchFiles batch)]

/-- Somebody will write to the column family or flush it. -/
def Tracked (s : RocksStore) (cf : String) : Prop := cf = s.activeCf ∨ cf ∈ s.orphanedCfs

structure BatchSettled (tableName : String) (s : RocksStore) (batch : List (CommitRequest δ × DropOutcome))
    (r : BatchResult δ) : Prop where
  committed : AllCommitted tableName batch r ∨
    r.commits = [] ∧ ∀ task ∈ batch, task.1.cfName ∈ r.store.orphanedCfs
  removed : ∀ cf ∈ s.db, cf ∉ r.store.db → AllCommitted tableName batch r
  kept : ∀ task ∈ batch, task.1.cfName ∈ r.store.db →
    task.1.cfName ∉ r.reported ∧ Tracked r.store task.1.cfName

def Removes (outcome : DropOutcome) : Prop := outcome = .returned true ∨ outcome = .panicked true

/-- One of the drops of the batch removes the column family. -/
def RemovedBy (batch : List (CommitRequest δ × DropOutcome)) (cf : String) : Prop :=
  cf ≠ Db.defaultCf ∧ ∃ task ∈ batch, task.1.cfName = cf ∧ Removes task.2

/-- All drops of the column family panic before RocksDB drops it, and it was tracked already. -/
def KeptBy (s : RocksStore) (batch : List (CommitRequest δ × DropOutcome)) (cf : String) : Prop :=
  Tracked s cf ∧ ∀ task ∈ batch, task.1.cfName = cf → task.2 = .panicked false

lemma dropCf_eq_none {db : Db} {cf : String} (h : db.dropCf cf = none) : cf ∉ db ∨ cf = Db.defaultCf := by
  unfold Db.dropCf at h
  split at h
  · cases h
  · rename_i hcf
    exact or_iff_not_imp_left.mpr (fun hmem => not_not.mp (fun hne => hcf ⟨not_not.mp hmem, hne⟩))

/-- What one drop does, after the outcome of the call of RocksDB. -/
lemma dropTask_cases (s : RocksStore) (cf : String) (outcome : DropOutcome) :
    (Removes outcome ∧ ∃ db, s.db.dropCf cf = some db ∧ (dropTask s cf outcome).2.db = db) ∨
    ((Removes outcome → cf ∉ s.db ∨ cf = Db.defaultCf) ∧ (dropTask s cf outcome).2 = s ∧
      (dropTask s cf outcome).1 = decide (outcome ≠ .panicked false)) := by
  cases hdrop : s.db.dropCf cf with
  | none =>
    refine Or.inr ⟨fun _ => dropCf_eq_none hdrop, ?_⟩
    cases outcome with
    | returned dropOk => cases dropOk <;> simp [dropTask, RocksStore.dropFrozenCf, hdrop]
    | panicked dropped => cases dropped <;> simp [dropTask, hdrop]
  | some db =>
    cases outcome with
    | returned dropOk =>
      cases dropOk with
      | false => exact Or.inr ⟨fun h => by simp [Removes] at h, rfl, rfl⟩
      | true =>
        refine Or.inl ⟨Or.inl rfl, db, rfl, ?_⟩
        simp only [dropTask, RocksStore.dropFrozenCf, hdrop, ite_true]
        split <;> rfl
    | panicked dropped =>
      cases dropped with
      | false => exact Or.inr ⟨fun h => by simp [Removes] at h, rfl, rfl⟩
      | true =>
        refine Or.inl ⟨Or.inr rfl, db, rfl, ?_⟩
        simp only [dropTask, hdrop]

lemma dropTask_frame (s : RocksStore) (cf : String) (outcome : DropOutcome) :
    (dropTask s cf outcome).2.activeCf = s.activeCf ∧ (dropTask s cf outcome).2.orphanedCfs = s.orphanedCfs := by
  unfold dropTask
  split
  · rename_i dropOk
    rcases dropFrozenCf_cases s cf dropOk with herr | ⟨s', hs', hd⟩
    · rw [herr]
      exact ⟨rfl, rfl⟩
    · rw [hs']
      exact ⟨hd.activeCf, hd.orphanedCfs⟩
  · exact ⟨rfl, rfl⟩
  · split <;> exact ⟨rfl, rfl⟩

lemma dropCfs_frame (tasks : List (String × DropOutcome)) (s : RocksStore) :
    (dropCfs s tasks).2.activeCf = s.activeCf ∧ (dropCfs s tasks).2.orphanedCfs = s.orphanedCfs := by
  induction tasks generalizing s with
  | nil => exact ⟨rfl, rfl⟩
  | cons task tasks ih =>
    obtain ⟨hactive, horphans⟩ := ih (dropTask s task.1 task.2).2
    obtain ⟨hactive', horphans'⟩ := dropTask_frame s task.1 task.2
    exact ⟨hactive.trans hactive', horphans.trans horphans'⟩

lemma mem_dropTask (s : RocksStore) (cf other : String) (outcome : DropOutcome) :
    other ∈ (dropTask s cf outcome).2.db ↔
      other ∈ s.db ∧ ¬(other ≠ Db.defaultCf ∧ cf = other ∧ Removes outcome) := by
  rcases dropTask_cases s cf outcome with ⟨hremoves, db, hdb, heq⟩ | ⟨hkeeps, heq, -⟩
  · obtain ⟨hdefault, hmem⟩ := mem_dropCf hdb other
    rw [heq, hmem]
    refine and_congr_right (fun _ => ⟨fun hne h => hne h.2.1.symm, fun h hother => ?_⟩)
    exact h ⟨hother ▸ hdefault, hother.symm, hremoves⟩
  · rw [heq]
    refine ⟨fun hmem => ⟨hmem, ?_⟩, And.left⟩
    rintro ⟨hdefault, rfl, hremoves⟩
    exact (hkeeps hremoves).elim (fun hnot => hnot hmem) hdefault

/-- A column family survives the drops unless one of them removes it. -/
lemma mem_dropCfs (tasks : List (String × DropOutcome)) (s : RocksStore) (cf : String) :
    cf ∈ (dropCfs s tasks).2.db ↔
      cf ∈ s.db ∧ ¬(cf ≠ Db.defaultCf ∧ ∃ task ∈ tasks, task.1 = cf ∧ Removes task.2) := by
  induction tasks generalizing s with
  | nil => simp [dropCfs]
  | cons task tasks ih =>
    have hstep : cf ∈ (dropCfs s (task :: tasks)).2.db ↔ cf ∈ (dropCfs (dropTask s task.1 task.2).2 tasks).2.db :=
      Iff.rfl
    simp only [hstep, ih, mem_dropTask, and_assoc, List.mem_cons, exists_eq_or_imp]
    refine and_congr_right (fun _ => ?_)
    rw [← not_or, ← and_or_left]

/-- A column family that survives is reported as dropped unless all of its drops panic. -/
lemma mem_reported (tasks : List (String × DropOutcome)) (s : RocksStore) {cf : String}
    (hmem : cf ∈ (dropCfs s tasks).2.db) :
    cf ∈ (dropCfs s tasks).1 ↔ ∃ task ∈ tasks, task.1 = cf ∧ task.2 ≠ .panicked false := by
  induction tasks generalizing s with
  | nil => simp [dropCfs]
  | cons task tasks ih =>
    have hrest := ih (dropTask s task.1 task.2).2 hmem
    have hcons : (dropCfs s (task :: tasks)).1 =
        if (dropTask s task.1 task.2).1 then task.1 :: (dropCfs (dropTask s task.1 task.2).2 tasks).1
        else (dropCfs (dropTask s task.1 task.2).2 tasks).1 := rfl
    simp only [List.mem_cons, exists_eq_or_imp]
    rw [← hrest]
    by_cases hcf : task.1 = cf
    · have hkept := (mem_dropCfs (task :: tasks) s cf).mp hmem
      rcases dropTask_cases s task.1 task.2 with ⟨hremoves, db, hdb, -⟩ | ⟨-, -, hdone⟩
      · have hdefault := (mem_dropCf hdb cf).1
        exact absurd ⟨hcf ▸ hdefault, task, List.mem_cons_self, hcf, hremoves⟩ hkept.2
      · by_cases hpanic : task.2 = .panicked false
        · rw [hcons, hdone, if_neg (by simpa using hpanic)]
          exact (or_iff_right (fun h => h.2 hpanic)).symm
        · rw [hcons, hdone, if_pos (by simpa using hpanic)]
          exact iff_of_true (List.mem_cons.mpr (Or.inl hcf.symm)) (Or.inl ⟨hcf, hpanic⟩)
    · have hsame : cf ∈ (dropCfs s (task :: tasks)).1 ↔ cf ∈ (dropCfs (dropTask s task.1 task.2).2 tasks).1 := by
        rw [hcons]
        split
        · rw [List.mem_cons]
          exact or_iff_right (fun heq => hcf heq.symm)
        · exact Iff.rfl
      rw [hsame]
      exact (or_iff_right (fun h => hcf h.1)).symm

lemma batchFiles_cons (task : CommitRequest δ × DropOutcome) (batch : List (CommitRequest δ × DropOutcome)) :
    batchFiles (task :: batch) = task.1.tableDataFiles.flatMap Prod.snd ++ batchFiles batch :=
  List.flatMap_cons

/-- Requests for one table are merged into one list. -/
lemma foldl_mergeDataFiles (hpinned : PinnedTo tableName batch) (files : List δ) :
    (batch.map Prod.fst).foldl (fun all req => req.tableDataFiles.foldl addDataFiles all)
      (AList.singleton tableName files) = AList.singleton tableName (files ++ batchFiles batch) := by
  induction batch generalizing files with
  | nil => simp [batchFiles]
  | cons task batch ih =>
    obtain ⟨⟨name, dfs⟩, htables, hname⟩ := List.map_eq_singleton_iff.mp (hpinned task List.mem_cons_self)
    cases hname
    have hlookup : (AList.singleton name files : AList (fun _ : String => List δ)).lookup name = some files := by
      rw [← AList.insert_empty, AList.lookup_insert]
    have hadd : addDataFiles (AList.singleton name files) (name, dfs) = AList.singleton name (files ++ dfs) := by
      rw [addDataFiles, hlookup, Option.getD_some, AList.insert_singleton_eq]
    rw [List.map_cons, List.foldl_cons, htables, List.foldl_cons, List.foldl_nil, hadd,
      ih (fun other hother => hpinned other (List.mem_cons_of_mem task hother)), batchFiles_cons, htables,
      List.flatMap_singleton, List.append_assoc]

lemma mergeDataFiles_entries (hpinned : PinnedTo tableName batch) (hbatch : batch ≠ []) :
    (mergeDataFiles (batch.map Prod.fst)).entries = [⟨tableName, batchFiles batch⟩] := by
  obtain ⟨task, batch, rfl⟩ := List.exists_cons_of_ne_nil hbatch
  obtain ⟨⟨name, dfs⟩, htables, hname⟩ := List.map_eq_singleton_iff.mp (hpinned task List.mem_cons_self)
  cases hname
  have hadd : addDataFiles (∅ : AList (fun _ : String => List δ)) (name, dfs) = AList.singleton name dfs := by
    rw [addDataFiles, AList.lookup_empty, Option.getD_none, List.nil_append, AList.insert_empty]
  have hrest := foldl_mergeDataFiles (fun other hother => hpinned other (List.mem_cons_of_mem task hother)) dfs
  rw [mergeDataFiles, List.map_cons, List.foldl_cons, htables, List.foldl_cons, List.foldl_nil, hadd, hrest,
    batchFiles_cons, htables, List.flatMap_singleton]
  rfl

/-- The commit of a batch fails when there is something to commit and its call fails. -/
def CommitFails (commitOk : String → Bool) (tableName : String) (batch : List (CommitRequest δ × DropOutcome)) : Prop :=
  batchFiles batch ≠ [] ∧ commitOk tableName = false

lemma foldl_retain (tasks : List (String × DropOutcome)) (s : RocksStore) :
    (tasks.foldl (fun s task => s.retainFrozenCf task.1) s).db = s.db ∧
      (tasks.foldl (fun s task => s.retainFrozenCf task.1) s).orphanedCfs = s.orphanedCfs ++ tasks.map Prod.fst := by
  induction tasks generalizing s with
  | nil => simp
  | cons task tasks ih =>
    obtain ⟨hdb, horphans⟩ := ih (s.retainFrozenCf task.1)
    rw [List.foldl_cons, hdb, horphans]
    exact ⟨rfl, by simp [RocksStore.retainFrozenCf]⟩

/-- The drops of a batch, with what each of them meets. -/
def dropsOf (batch : List (CommitRequest δ × DropOutcome)) : List (String × DropOutcome) :=
  batch.map (fun task => (task.1.cfName, task.2))

/-- A failed commit puts all column families back. -/
lemma settleBatch_of_fails {commitOk : String → Bool} (hpinned : PinnedTo tableName batch)
    (h : CommitFails commitOk tableName batch) :
    (settleBatch commitOk s batch).commits = [] ∧ (settleBatch commitOk s batch).store.db = s.db ∧
      (settleBatch commitOk s batch).reported = [] ∧
      ∀ task ∈ batch, task.1.cfName ∈ (settleBatch commitOk s batch).store.orphanedCfs := by
  have hbatch : batch ≠ [] := by
    rintro rfl
    exact h.1 rfl
  have hcommit : commitTables commitOk (mergeDataFiles (batch.map Prod.fst)).entries = ([], false) := by
    rw [mergeDataFiles_entries hpinned hbatch]
    simp [commitTables, h.1, h.2]
  obtain ⟨hdb, horphans⟩ := foldl_retain (dropsOf batch) s
  have hsettled : settleBatch commitOk s batch =
      ⟨[], [], (dropsOf batch).foldl (fun s task => s.retainFrozenCf task.1) s⟩ := by
    simp only [settleBatch, hcommit]
    rfl
  rw [hsettled]
  refine ⟨rfl, hdb, rfl, fun task htask => ?_⟩
  rw [horphans]
  refine List.mem_append_right _ (List.mem_map.mpr ⟨(task.1.cfName, task.2), ?_, rfl⟩)
  exact List.mem_map_of_mem htask

/-- Otherwise all data files are committed in one call, and the drops follow. -/
lemma settleBatch_of_commits {commitOk : String → Bool} (hpinned : PinnedTo tableName batch)
    (h : ¬CommitFails commitOk tableName batch) :
    AllCommitted tableName batch (settleBatch commitOk s batch) ∧
      (settleBatch commitOk s batch).reported = (dropCfs s (dropsOf batch)).1 ∧
      (settleBatch commitOk s batch).store = (dropCfs s (dropsOf batch)).2 := by
  have hcommit : ∃ commits, commitTables commitOk (mergeDataFiles (batch.map Prod.fst)).entries = (commits, true) ∧
      (batchFiles batch = [] ∧ commits = [] ∨ commits = [(tableName, batchFiles batch)]) := by
    by_cases hbatch : batch = []
    · subst hbatch
      exact ⟨[], rfl, Or.inl ⟨rfl, rfl⟩⟩
    · rw [mergeDataFiles_entries hpinned hbatch]
      by_cases hfiles : batchFiles batch = []
      · exact ⟨[], by simp [commitTables, hfiles], Or.inl ⟨hfiles, rfl⟩⟩
      · have hok : commitOk tableName = true := by
          rw [← Bool.not_eq_false]
          exact fun hfalse => h ⟨hfiles, hfalse⟩
        exact ⟨[(tableName, batchFiles batch)], by simp [commitTables, hfiles, hok], Or.inr rfl⟩
  obtain ⟨commits, hcommits, hall⟩ := hcommit
  have hsettled : settleBatch commitOk s batch =
      ⟨commits, (dropCfs s (dropsOf batch)).1, (dropCfs s (dropsOf batch)).2⟩ := by
    simp only [settleBatch, hcommits]
    rfl
  rw [hsettled]
  exact ⟨hall, rfl, rfl⟩

lemma exists_dropsOf {p : String × DropOutcome → Prop} :
    (∃ task ∈ dropsOf batch, p task) ↔ ∃ task ∈ batch, p (task.1.cfName, task.2) := by
  constructor
  · rintro ⟨_, hdrop, h⟩
    obtain ⟨task, htask, rfl⟩ := List.mem_map.mp hdrop
    exact ⟨task, htask, h⟩
  · rintro ⟨task, htask, h⟩
    exact ⟨_, List.mem_map.mpr ⟨task, htask, rfl⟩, h⟩

lemma removedBy_iff {cf : String} :
    (cf ≠ Db.defaultCf ∧ ∃ task ∈ dropsOf batch, task.1 = cf ∧ Removes task.2) ↔ RemovedBy batch cf := by
  rw [exists_dropsOf, RemovedBy]

/-- After the drops a column family of the batch is properly kept exactly when it is gone, or was
tracked already and all of its drops panicked. -/
lemma kept_iff {cf : String} :
    (cf ∈ (dropCfs s (dropsOf batch)).2.db →
      cf ∉ (dropCfs s (dropsOf batch)).1 ∧ Tracked (dropCfs s (dropsOf batch)).2 cf) ↔
    (cf ∈ s.db → RemovedBy batch cf ∨ KeptBy s batch cf) := by
  have hsurvives := mem_dropCfs (dropsOf batch) s cf
  rw [removedBy_iff] at hsurvives
  have htracked : Tracked (dropCfs s (dropsOf batch)).2 cf ↔ Tracked s cf := by
    obtain ⟨hactive, horphans⟩ := dropCfs_frame (dropsOf batch) s
    rw [Tracked, Tracked, hactive, horphans]
  have hkept : cf ∈ (dropCfs s (dropsOf batch)).2.db →
      (cf ∉ (dropCfs s (dropsOf batch)).1 ∧ Tracked (dropCfs s (dropsOf batch)).2 cf ↔ KeptBy s batch cf) := by
    intro hmem
    rw [mem_reported (dropsOf batch) s hmem, htracked, KeptBy, and_comm]
    refine and_congr_right (fun _ => ?_)
    rw [exists_dropsOf]
    push Not
    rfl
  constructor
  · intro h hmem
    by_cases hremoved : RemovedBy batch cf
    · exact Or.inl hremoved
    · have hleft := hsurvives.mpr ⟨hmem, hremoved⟩
      exact Or.inr ((hkept hleft).mp (h hleft))
  · intro h hleft
    obtain ⟨hmem, hremoved⟩ := hsurvives.mp hleft
    exact (hkept hleft).mpr ((h hmem).resolve_left hremoved)

/-- A batch is settled exactly when its commit fails, or each of its column families that exists is
removed by one of its drops, or was tracked already and is not reported as dropped. -/
theorem batch_settled_iff {commitOk : String → Bool} (hpinned : PinnedTo tableName batch) :
    BatchSettled tableName s batch (settleBatch commitOk s batch) ↔
      CommitFails commitOk tableName batch ∨
      ∀ task ∈ batch, task.1.cfName ∈ s.db →
        RemovedBy batch task.1.cfName ∨ KeptBy s batch task.1.cfName := by
  by_cases hfails : CommitFails commitOk tableName batch
  · obtain ⟨hcommits, hdb, hreported, horphans⟩ := settleBatch_of_fails (s := s) hpinned hfails
    refine iff_of_true ⟨Or.inr ⟨hcommits, horphans⟩, fun cf hmem hgone => ?_, fun task htask _ => ⟨?_, ?_⟩⟩
      (Or.inl hfails)
    · rw [hdb] at hgone
      exact absurd hmem hgone
    · rw [hreported]
      exact List.not_mem_nil
    · exact Or.inr (horphans task htask)
  · obtain ⟨hall, hreported, hstore⟩ := settleBatch_of_commits (s := s) hpinned hfails
    rw [or_iff_right hfails]
    constructor
    · intro hsettled task htask
      rw [← kept_iff]
      have hkept := hsettled.kept task htask
      rw [hreported, hstore] at hkept
      exact hkept
    · intro h
      refine ⟨Or.inl hall, fun _ _ _ => hall, fun task htask => ?_⟩
      rw [hreported, hstore]
      exact kept_iff.mpr (h task htask)

/-- The store after a rotation, with the frozen column family in the hands of the committer. -/
def rotatedStore : RocksStore := (freshStore.rotate 5 true 0).2

/-- The store after a second rotation. -/
def rotatedTwice : RocksStore := (rotatedStore.rotate 6 true 0).2

/-- A commit of the files of two requests, and the drops after it, of which the second panics when
RocksDB is done. -/
theorem batch_settled_two :
    BatchSettled "telemetry_events" rotatedTwice
      [(⟨"active", [("telemetry_events", [7])]⟩, .returned true),
        (⟨"active_5", [("telemetry_events", [8])]⟩, .panicked true)]
      (settleBatch (fun _ => true) rotatedTwice
        [(⟨"active", [("telemetry_events", [7])]⟩, .returned true),
          (⟨"active_5", [("telemetry_events", [8])]⟩, .panicked true)]) := by
  refine (batch_settled_iff (fun task htask => ?_)).mpr (Or.inr (fun task htask _ => Or.inl ?_))
  · rcases List.mem_pair.mp htask with rfl | rfl <;> rfl
  · rcases List.mem_pair.mp htask with rfl | rfl
    · exact ⟨by decide, _, List.mem_cons_self, rfl, Or.inl rfl⟩
    · exact ⟨by decide, _, List.mem_cons_of_mem _ List.mem_cons_self, rfl, Or.inr rfl⟩

/-- The drop after a commit fails. It is reported as done, and the column family stays in RocksDB
without anybody knowing of it. -/
theorem failed_drop_reported :
    ¬∀ (δ : Type) (commitOk : String → Bool) (tableName : String) (s : RocksStore)
      (batch : List (CommitRequest δ × DropOutcome)), batch ≠ [] → PinnedTo tableName batch →
      BatchSettled tableName s batch (settleBatch commitOk s batch) := by
  intro h
  have hsettled := h ℕ (fun _ => true) "telemetry_events" rotatedStore
    [(⟨"active", [("telemetry_events", [7])]⟩, .returned false)] (by decide) (fun task htask => ?_)
  · have hkept := hsettled.kept _ List.mem_cons_self (by decide)
    exact hkept.1 (by decide)
  · cases List.mem_singleton.mp htask
    rfl

end MicewriterEngine.Proofs
