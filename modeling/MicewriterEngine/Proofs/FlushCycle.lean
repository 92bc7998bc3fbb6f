import Mathlib.Data.List.Perm.Basic
import Mathlib.Data.List.Perm.Subperm
import MicewriterEngine.Model.FlushEngine
import MicewriterEngine.Proofs.StoreSteps

/-!
# What a flush cycle gives back

A cycle takes the waiting column families and the one it froze. They come back, as commit
requests or to the waiting list, unless the cycle ends between the two or a compilation
panics.
-/

namespace MicewriterEngine.Proofs

variable {δ : Type}

def rotates (env : FlushEnv) (store : RocksStore) : Bool :=
  match env.rotation with
  | none => false
  | some (ts, createOk, _) => createOk && decide (rotatedCf ts ∉ store.db)

/-- The column families that a cycle takes: the waiting ones, and the frozen one. -/
def takenCfs (env : FlushEnv) (store : RocksStore) : List String :=
  store.orphanedCfs ++ if rotates env store then [store.activeCf] else []

def FinishedTasks (spawned : Except Error (List String)) (tasks : List (String × TaskOutcome δ)) : Prop :=
  match spawned with
  | .ok cfs => (tasks.map Prod.fst).Perm cfs
  | .error _ => tasks = []

/-- Where column families are after a cycle: in requests that were sent, or waiting again. -/
def settledCfs (x : RocksStore × List (CommitRequest δ)) : List String :=
  x.2.map CommitRequest.cfName ++ x.1.orphanedCfs

def TaskOutcome.finishes : TaskOutcome δ → Bool
  | .compiled _ _ => true
  | .panicked => false

/-- Exactly when a cycle gives everything back: a failed rotation finds nothing waiting, and after
a successful one nothing else in the set-up fails and no compilation panics. -/
def CycleCompletes (env : FlushEnv) (store : RocksStore) (tasks : List (String × TaskOutcome δ)) : Prop :=
  if rotates env store then
    env.catalogOk = true ∧ env.contextOk = true ∧ ∀ task ∈ tasks, TaskOutcome.finishes task.2 = true
  else store.orphanedCfs = []

lemma rotate_of_rotates {env : FlushEnv} {store : RocksStore} (h : rotates env store = true) :
    ∃ ts draw store', env.rotation = some (ts, true, draw) ∧
      (store.getOrphanedCfs.2).rotate ts true draw = (.ok store.activeCf, store') ∧ store'.orphanedCfs = [] := by
  unfold rotates at h
  cases hrotation : env.rotation with
  | none =>
    rw [hrotation] at h
    cases h
  | some r =>
    obtain ⟨ts, createOk, draw⟩ := r
    rw [hrotation] at h
    rw [Bool.and_eq_true, decide_eq_true_eq] at h
    obtain ⟨rfl, hfresh⟩ := h
    rcases rotate_cases store.getOrphanedCfs.2 ts true draw with herr | ⟨store', hs', hr⟩
    · have hcreate : Db.createCf store.db (rotatedCf ts) = some _ := if_neg hfresh
      simp only [RocksStore.rotate, RocksStore.getOrphanedCfs, ite_true, hcreate] at herr
      cases herr
    · exact ⟨ts, draw, store', rfl, hs', hr.orphanedCfs⟩

lemma rotate_of_not_rotates {env : FlushEnv} {store : RocksStore} (h : rotates env store = false) :
    ∃ e, doFlush store env = (.error e, store.getOrphanedCfs.2) := by
  unfold rotates at h
  unfold doFlush
  cases hrotation : env.rotation with
  | none => exact ⟨_, rfl⟩
  | some r =>
    obtain ⟨ts, createOk, draw⟩ := r
    rw [hrotation] at h
    dsimp only at h
    refine ⟨.rocksdb, ?_⟩
    have hcreate : (if createOk then Db.createCf store.db (rotatedCf ts) else none) = none := by
      cases createOk with
      | false => rfl
      | true =>
        rw [Bool.true_and, decide_eq_false_iff_not, not_not] at h
        simp only [Db.createCf, h, ite_true]
    simp only [RocksStore.rotate, RocksStore.getOrphanedCfs, hcreate]

lemma doFlush_of_rotates {env : FlushEnv} {store : RocksStore} (h : rotates env store = true) :
    ∃ store', store'.orphanedCfs = [] ∧
      ((¬(env.catalogOk = true ∧ env.contextOk = true) ∧ ∃ e, doFlush store env = (.error e, store')) ∨
        env.catalogOk = true ∧ env.contextOk = true ∧
          doFlush store env = (.ok (store.orphanedCfs ++ [store.activeCf]), store')) := by
  obtain ⟨ts, draw, store', hrotation, hrotate, horphans⟩ := rotate_of_rotates h
  refine ⟨store', horphans, ?_⟩
  have hflush : doFlush store env =
      if !env.catalogOk then (.error .external, store')
      else if !env.contextOk then (.error (.anyhow "Failed to get table write context"), store')
      else (.ok (store.orphanedCfs ++ [store.activeCf]), store') := by
    simp only [doFlush, hrotation, hrotate]
    rfl
  rw [hflush]
  cases env.catalogOk with
  | false => exact Or.inl ⟨(fun hok => nomatch hok.1), _, rfl⟩
  | true =>
    cases env.contextOk with
    | false => exact Or.inl ⟨(fun hok => nomatch hok.2), _, rfl⟩
    | true => exact Or.inr ⟨rfl, rfl, rfl⟩

lemma flushTask_settles (tableName : String) (store : RocksStore) (sent : List (CommitRequest δ)) (cf : String)
    (outcome : TaskOutcome δ) :
    (settledCfs (flushTask tableName store sent cf outcome).2).Perm
      (settledCfs (store, sent) ++ if TaskOutcome.finishes outcome then [cf] else []) := by
  cases outcome with
  | panicked => simp [flushTask, TaskOutcome.finishes, settledCfs]
  | compiled result sendOk =>
    cases result with
    | error e => simp [flushTask, TaskOutcome.finishes, settledCfs, RocksStore.retainFrozenCf]
    | ok dataFiles =>
      cases sendOk with
      | false => simp [flushTask, TaskOutcome.finishes, settledCfs, RocksStore.retainFrozenCf]
      | true =>
        simp only [flushTask, TaskOutcome.finishes, settledCfs, ite_true, List.map_append, List.map_cons, List.map_nil]
        rw [List.append_assoc, List.append_assoc]
        exact List.perm_append_comm.append_left _

lemma finishTasks_settles (tableName : String) (tasks : List (String × TaskOutcome δ)) (store : RocksStore)
    (sent : List (CommitRequest δ)) :
    (settledCfs (finishTasks tableName store sent tasks)).Perm
      (settledCfs (store, sent) ++ (tasks.filter (fun task => TaskOutcome.finishes task.2)).map Prod.fst) := by
  induction tasks generalizing store sent with
  | nil => simp [finishTasks]
  | cons task tasks ih =>
    obtain ⟨cf, outcome⟩ := task
    have hstep := flushTask_settles tableName store sent cf outcome
    have hrest := ih (flushTask tableName store sent cf outcome).2.1 (flushTask tableName store sent cf outcome).2.2
    refine hrest.trans ((hstep.append_right _).trans ?_)
    rw [List.append_assoc]
    cases hout : TaskOutcome.finishes outcome <;> simp [hout]

lemma map_filter_perm_iff {α β : Type} {l : List α} {p : α → Bool} {f : α → β} :
    ((l.filter p).map f).Perm (l.map f) ↔ ∀ a ∈ l, p a = true := by
  constructor
  · intro h
    have hlength := h.length_eq
    rw [List.length_map, List.length_map] at hlength
    exact List.length_filter_eq_length_iff.mp hlength
  · intro h
    rw [List.filter_eq_self.mpr h]

lemma forall_count_eq_one_iff {part l : List String} (hpart : part.Subperm l) (hnodup : l.Nodup) :
    (∀ a ∈ l, part.count a = 1) ↔ part.Perm l := by
  constructor
  · intro h
    rw [List.perm_iff_count]
    intro a
    by_cases ha : a ∈ l
    · rw [h a ha, List.count_eq_one_of_mem hnodup ha]
    · have hle := hpart.count_le a
      rw [List.count_eq_zero_of_not_mem ha] at hle ⊢
      exact Nat.le_zero.mp hle
  · intro h a ha
    rw [h.count_eq, List.count_eq_one_of_mem hnodup ha]

lemma settledCfs_subperm (tableName : String) {store : RocksStore} {env : FlushEnv}
    {tasks : List (String × TaskOutcome δ)} (htasks : FinishedTasks (doFlush store env).1 tasks) :
    (settledCfs (finishTasks tableName (doFlush store env).2 [] tasks)).Subperm (takenCfs env store) ∧
      ((settledCfs (finishTasks tableName (doFlush store env).2 [] tasks)).Perm (takenCfs env store) ↔
        CycleCompletes env store tasks) := by
  have hsettles := finishTasks_settles tableName tasks (doFlush store env).2 []
  unfold CycleCompletes takenCfs
  cases hrot : rotates env store with
  | false =>
    obtain ⟨e, herr⟩ := rotate_of_not_rotates hrot
    rw [herr] at htasks hsettles ⊢
    subst htasks
    have hnil : settledCfs (finishTasks tableName store.getOrphanedCfs.2 ([] : List (CommitRequest δ)) []) = [] := rfl
    rw [hnil]
    simp [List.nil_perm]
  | true =>
    obtain ⟨store', horphans, ⟨hnot, e, herr⟩ | ⟨hcatalog, hcontext, hok⟩⟩ := doFlush_of_rotates hrot
    · rw [herr] at htasks hsettles ⊢
      subst htasks
      have hnil : settledCfs (finishTasks tableName store' ([] : List (CommitRequest δ)) []) = [] := horphans
      rw [hnil]
      refine ⟨List.nil_subperm, iff_of_false (fun h => ?_) (fun h => hnot ⟨h.1, h.2.1⟩)⟩
      have hlength := h.length_eq
      simp at hlength
    · rw [hok] at htasks hsettles ⊢
      have hperm : (tasks.map Prod.fst).Perm (store.orphanedCfs ++ [store.activeCf]) := htasks
      have hstart : settledCfs (store', ([] : List (CommitRequest δ))) = [] := horphans
      rw [hstart, List.nil_append] at hsettles
      simp only [ite_true]
      constructor
      · exact (hsettles.subperm.trans ((List.filter_sublist.map _).subperm)).trans hperm.subperm
      · rw [hsettles.congr_left, ← hperm.congr_right, map_filter_perm_iff]
        simp [hcatalog, hcontext]

/-- A cycle gives every column family that it took back, exactly once, if and only if nothing fails
between taking and spawning and no compilation panics. -/
theorem cycle_gives_back_iff (tableName : String) {store : RocksStore} {env : FlushEnv}
    {tasks : List (String × TaskOutcome δ)} (htasks : FinishedTasks (doFlush store env).1 tasks) :
    ((settledCfs (finishTasks tableName (doFlush store env).2 [] tasks)).Perm (takenCfs env store) ↔
      CycleCompletes env store tasks) ∧
    ((takenCfs env store).Nodup →
      ((∀ cf ∈ takenCfs env store,
          (settledCfs (finishTasks tableName (doFlush store env).2 [] tasks)).count cf = 1) ↔
        CycleCompletes env store tasks)) := by
  obtain ⟨hsub, hiff⟩ := settledCfs_subperm tableName htasks
  exact ⟨hiff, fun hnodup => (forall_count_eq_one_iff hsub hnodup).trans hiff⟩

/-- The store after a cycle at clock reading 5 whose commit failed. -/
def retainedStore : RocksStore := ((freshStore.rotate 5 true 0).2).retainFrozenCf "active"

/-- A second cycle, in which one compilation fails and the other request is sent. -/
theorem cycle_gives_back_retained :
    (settledCfs (finishTasks "telemetry_events" (doFlush retainedStore ⟨some (7, true, 0), true, true⟩).2 []
      [("active_5", .compiled (.ok [()]) true), ("active", .compiled (.error .external) true)])).Perm
      ["active", "active_5"] := by
  have htasks : FinishedTasks (doFlush retainedStore ⟨some (7, true, 0), true, true⟩).1
      [("active_5", .compiled (.ok [()]) true), ("active", .compiled (.error .external) true)] :=
    List.Perm.swap "active" "active_5" []
  refine (cycle_gives_back_iff "telemetry_events" htasks).1.mpr ⟨rfl, rfl, ?_⟩
  simp [TaskOutcome.finishes]

/-- When the second cycle runs at the same clock reading, its rotation fails and the waiting
column family is nowhere. -/
theorem failed_rotation_forgets :
    ¬∀ (tableName : String) (store : RocksStore) (env : FlushEnv) (tasks : List (String × TaskOutcome Unit)),
      FinishedTasks (doFlush store env).1 tasks → (takenCfs env store).Nodup →
      ∀ cf ∈ takenCfs env store,
        (settledCfs (finishTasks tableName (doFlush store env).2 [] tasks)).count cf = 1 := by
  intro h
  have hcount := h "telemetry_events" retainedStore ⟨some (5, true, 0), true, true⟩ [] rfl (by decide)
    "active" (by decide)
  exact absurd hcount (by decide)

end MicewriterEngine.Proofs
