import MicewriterEngine.Proofs.Conservation

/-!
# Runs of one process

The process starts with a successful `RocksStore::new`. Whatever fails, it keeps every
acknowledged record and commits none twice, when an append is atomic with respect to
`rotate`. Without that, a record can be acknowledged after its column family was read.
-/

namespace MicewriterEngine.Proofs
open Lib

variable {p : Pipeline} {e : PipelineEvent}

lemma mem_log_iff {r : Record} : (∃ name, r ∈ p.log name) ↔ p.Stored r := by
  constructor
  · rintro ⟨name, hname⟩
    rw [Pipeline.log] at hname
    cases hlog : p.store.logs name with
    | none =>
      rw [hlog] at hname
      cases hname
    | some log =>
      rw [hlog] at hname
      exact ⟨name, log, hlog, hname⟩
  · rintro ⟨name, log, hlog, hr⟩
    refine ⟨name, ?_⟩
    rwa [Pipeline.log, hlog]

lemma start_ownership {disk : Option Db} {env : OpenEnv} {flushSizeBytes flushSizeJitterBytes : ℕ} {s : RocksStore}
    (hnew : RocksStore.new disk env flushSizeBytes flushSizeJitterBytes = .ok s) (hlist : Db.ListsCf disk env.listCf) :
    OwnershipInv (.start s.toLogStore) := by
  obtain ⟨hnodup, -, horphans, -⟩ := new_covers hnew hlist
  have htracked := tracked_start s.toLogStore
  have hexists : ∀ name ∈ s.db, (Pipeline.start s.toLogStore).store.logs name ≠ none := by
    intro name hname
    obtain ⟨cf, hcf⟩ := Option.isSome_iff_exists.mp (AList.lookup_isSome.mpr hname)
    simp only [Pipeline.start, RocksStore.toLogStore, Db.logs_eq_some hcf, Option.map_some]
    exact Option.some_ne_none _
  constructor
  case nodup =>
    rw [htracked, add_comm, ← Multiset.coe_singleton, Multiset.coe_add, Multiset.coe_nodup]
    exact hnodup
  case exist =>
    intro name hname
    rw [htracked, Multiset.mem_add, Multiset.mem_singleton] at hname
    rcases hname with rfl | hname
    · exact (new_active_exists hnew hlist).imp_left (hexists _)
    · exact Or.inl (hexists name (horphans name hname).1)

lemma start_conservation (s : LogStore Bytes) : ConservationInv (.start s) := by
  have hlog : ∀ name, Pipeline.log (.start s) name = tagFrom (.found name) 0 ((s.logs name).getD []) := by
    intro name
    simp only [Pipeline.log, Pipeline.start]
    cases s.logs name with
    | none => rfl
    | some values => rfl
  have hid : ∀ name r, r ∈ Pipeline.log (.start s) name → ∃ n, r.id = .found name n := by
    intro name r hr
    rw [hlog] at hr
    obtain ⟨n, -, -, hid⟩ := mem_tagFrom hr
    exact ⟨n, hid⟩
  constructor
  case requests =>
    intro q hq
    cases Multiset.notMem_zero q hq
  case log_nodup =>
    intro name
    rw [hlog]
    exact nodup_tagFrom (fun _ _ h => (RecordId.found.inj h).2) 0 _
  case log_unique =>
    intro m n r hm hn
    obtain ⟨i, hi⟩ := hid m r hm
    obtain ⟨j, hj⟩ := hid n r hn
    exact (RecordId.found.inj (hi.symm.trans hj)).1
  case table_nodup => exact List.nodup_nil
  case uncommitted =>
    intro name hname hkept r hr
    exact List.not_mem_nil
  case committed =>
    intro name hname
    cases hname
  case acked =>
    intro r hr
    cases hr
  case numbered =>
    rintro r k (hr | ⟨name, hname⟩) hk
    · cases hr
    · obtain ⟨n, hn⟩ := hid name r hname
      rw [hn] at hk
      cases hk

theorem pipeline_invariant {disk : Option Db} {env : OpenEnv} {flushSizeBytes flushSizeJitterBytes : ℕ}
    {s : RocksStore} (hnew : RocksStore.new disk env flushSizeBytes flushSizeJitterBytes = .ok s)
    (hlist : Db.ListsCf disk env.listCf) {allowed : Pipeline → PipelineEvent → Prop}
    (hallowed : ∀ p e, OwnershipInv p → allowed p e → NoLateWrite p e) {es : List PipelineEvent} {p : Pipeline}
    (hrun : Run (Guarded PipelineStep allowed) (.start s.toLogStore) es p) :
    OwnershipInv p ∧ ConservationInv p := by
  refine hrun.invariant (fun p => OwnershipInv p ∧ ConservationInv p) ?_
    ⟨start_ownership hnew hlist, start_conservation s.toLogStore⟩
  rintro p e p' ⟨hown, hinv⟩ ⟨hguard, hstep⟩
  exact ⟨hown.step hstep, hinv.step hown (hallowed p e hown hguard) hstep⟩

lemma OwnershipInv.noLateWrite (hown : OwnershipInv p) (h : AtomicAppend p e) : NoLateWrite p e := by
  cases e with
  | write cf values =>
    have hactive : cf = p.store.activeCf := h
    intro hread
    rw [hactive] at hread
    exact hown.active_notMem_held (Multiset.mem_of_le (readCfs_le p) hread)
  | _ => trivial

/-- With atomic appends no acknowledged record is lost and none is committed twice, whatever
fails on the way to the table, and each column family is in one place. -/
theorem records_conserved {disk : Option Db} {env : OpenEnv} {flushSizeBytes flushSizeJitterBytes : ℕ}
    {s : RocksStore} (hnew : RocksStore.new disk env flushSizeBytes flushSizeJitterBytes = .ok s)
    (hlist : Db.ListsCf disk env.listCf) {es : List PipelineEvent} {p : Pipeline}
    (hrun : Run (Guarded PipelineStep AtomicAppend) (.start s.toLogStore) es p) :
    (∀ r ∈ p.acked, r ∈ p.table ∨ p.Stored r) ∧ p.table.Nodup ∧ p.heldCfs.Nodup := by
  obtain ⟨hown, hinv⟩ := pipeline_invariant hnew hlist (fun _ _ => OwnershipInv.noLateWrite) hrun
  exact ⟨fun r hr => (hinv.acked r hr).imp_right mem_log_iff.mp, hinv.table_nodup, hown.held_nodup⟩

lemma run_setup {allowed : Pipeline → PipelineEvent → Prop} {ts : ℕ}
    (hallowed : ∀ p, allowed p .drain ∧ allowed p (.rotate ts) ∧ allowed p .spawn)
    (s : LogStore Record) (appends : Multiset (String × List Bytes)) (acked : List Record) (n : ℕ)
    (hfresh : s.logs (rotatedCf ts) = none) :
    Run (Guarded PipelineStep allowed) ⟨s, appends, 0, 0, [], .idle, [], acked, n⟩ [.drain, .rotate ts, .spawn]
      ⟨s.takeOrphans.rotate (rotatedCf ts), appends, 0,
        (((s.orphanedCfs ++ [s.activeCf]).map .spawned : List FlushTask) : Multiset FlushTask) + 0,
        [], .idle, [], acked, n⟩ := by
  refine .cons ⟨(hallowed _).1, .drain _⟩ ?_
  refine .cons ⟨(hallowed _).2.1, @PipelineStep.rotate _ s.orphanedCfs 0 ts rfl hfresh⟩ ?_
  exact .cons ⟨(hallowed _).2.2, @PipelineStep.spawn _ (s.orphanedCfs ++ [s.activeCf]) 0 rfl⟩ (.nil _)

/-- A flush task that succeeds. -/
lemma run_task {allowed : Pipeline → PipelineEvent → Prop} {cf : String}
    (hallowed : ∀ p, allowed p (.iterate cf) ∧ allowed p (.compiled cf) ∧ allowed p (.sent cf))
    {rest : Multiset FlushTask} (htask : p.tasks = .spawned cf ::ₘ rest) :
    Run (Guarded PipelineStep allowed) p [.iterate cf, .compiled cf, .sent cf]
      { p with tasks := rest, queue := p.queue ++ [⟨cf, p.log cf⟩] } := by
  refine .cons ⟨(hallowed _).1, .iterate htask⟩ ?_
  refine .cons ⟨(hallowed _).2.1, @PipelineStep.compiled _ ⟨cf, p.log cf⟩ rest rfl⟩ ?_
  exact .cons ⟨(hallowed _).2.2, @PipelineStep.sent _ ⟨cf, p.log cf⟩ rest rfl⟩ (.nil _)

/-- An upload that fails in the first flush cycle and succeeds in the second. -/
theorem records_conserved_retry :
    ∃ p : Pipeline, p.acked = [⟨.appended 0, [1]⟩] ∧ p.table = [⟨.appended 0, [1]⟩] ∧ p.heldCfs = 0 ∧
      (∀ r ∈ p.acked, r ∈ p.table ∨ p.Stored r) ∧ p.table.Nodup ∧ p.heldCfs.Nodup := by
  let r : Record := ⟨.appended 0, [1]⟩
  let s₁ := (Pipeline.start freshStore.toLogStore).store.append "active" [r]
  let s₂ := (s₁.takeOrphans.rotate (rotatedCf 5)).retain "active"
  let s₃ := s₂.takeOrphans.rotate (rotatedCf 6)
  have hwritten : Run (Guarded PipelineStep AtomicAppend) (.start freshStore.toLogStore)
      [.clone [[1]], .write "active" [[1]]] ⟨s₁, 0, 0, 0, [], .idle, [], [r], 1⟩ := by
    refine .cons ⟨trivial, .clone _ (by decide)⟩ ?_
    exact .cons ⟨rfl, .write rfl (by decide)⟩ (.nil _)
  have hsetup : Run (Guarded PipelineStep AtomicAppend) _ [.drain, .rotate 5, .spawn] _ :=
    run_setup (fun _ => ⟨trivial, trivial, trivial⟩) s₁ 0 [r] 1 (by decide)
  have hfailed : Run (Guarded PipelineStep AtomicAppend)
      ⟨s₁.takeOrphans.rotate (rotatedCf 5), 0, 0, {.spawned "active"}, [], .idle, [], [r], 1⟩
      [.iterate "active", .compileFailed "active", .retained "active"] ⟨s₂, 0, 0, 0, [], .idle, [], [r], 1⟩ := by
    refine .cons ⟨trivial, @PipelineStep.iterate _ "active" 0 rfl⟩ ?_
    refine .cons ⟨trivial, @PipelineStep.compileFailed _ ⟨"active", [r]⟩ 0 rfl⟩ ?_
    exact .cons ⟨trivial, @PipelineStep.retained _ "active" 0 rfl⟩ (.nil _)
  have hsecond : Run (Guarded PipelineStep AtomicAppend) _ [.drain, .rotate 6, .spawn]
      ⟨s₃, 0, 0, {.spawned "active", .spawned "active_5"}, [], .idle, [], [r], 1⟩ :=
    run_setup (fun _ => ⟨trivial, trivial, trivial⟩) s₂ 0 [r] 1 (by decide)
  have hsent := (run_task (fun _ => ⟨trivial, trivial, trivial⟩) rfl : Run (Guarded PipelineStep AtomicAppend)
    ⟨s₃, 0, 0, .spawned "active" ::ₘ {.spawned "active_5"}, [], .idle, [], [r], 1⟩ _
    ⟨s₃, 0, 0, {.spawned "active_5"}, [⟨"active", [r]⟩], .idle, [], [r], 1⟩)
  have hsentNext := (run_task (fun _ => ⟨trivial, trivial, trivial⟩) rfl : Run (Guarded PipelineStep AtomicAppend)
    ⟨s₃, 0, 0, .spawned "active_5" ::ₘ 0, [⟨"active", [r]⟩], .idle, [], [r], 1⟩ _
    ⟨s₃, 0, 0, 0, [⟨"active", [r]⟩, ⟨"active_5", []⟩], .idle, [], [r], 1⟩)
  have hcommitted : Run (Guarded PipelineStep AtomicAppend)
      ⟨s₃, 0, 0, 0, [⟨"active", [r]⟩, ⟨"active_5", []⟩], .idle, [], [r], 1⟩
      [.recv, .tryRecv, .collected, .committed, .dropped "active", .dropped "active_5", .settled]
      ⟨(s₃.drop "active").drop "active_5", 0, 0, 0, [], .idle, [r], [r], 1⟩ := by
    refine .cons ⟨trivial, .recv rfl rfl⟩ (.cons ⟨trivial, .tryRecv rfl rfl⟩ (.cons ⟨trivial, .collected rfl rfl⟩ ?_))
    refine .cons ⟨trivial, .committed rfl⟩ (.cons ⟨trivial, .dropped rfl (by decide)⟩ ?_)
    exact .cons ⟨trivial, .dropped rfl (by decide)⟩ (.cons ⟨trivial, .settled (Or.inl rfl)⟩ (.nil _))
  have hrun := (hwritten.append hsetup).append hfailed
  have hretried := (((hrun.append hsecond).append hsent).append hsentNext).append hcommitted
  exact ⟨_, rfl, rfl, rfl, records_conserved new_freshStore (listsCf_none _) hretried⟩

/-- A record is not lost as long as no `append_batch` writes to a column family that was read after
the rotation that followed its clone. -/
theorem acked_kept_without_late_writes {disk : Option Db} {env : OpenEnv} {flushSizeBytes flushSizeJitterBytes : ℕ}
    {s : RocksStore} (hnew : RocksStore.new disk env flushSizeBytes flushSizeJitterBytes = .ok s)
    (hlist : Db.ListsCf disk env.listCf) {es : List PipelineEvent} {p : Pipeline}
    (hrun : Run (Guarded PipelineStep NoLateWrite) (.start s.toLogStore) es p) :
    ∀ r ∈ p.acked, r ∈ p.table ∨ p.Stored r := by
  obtain ⟨-, hinv⟩ := pipeline_invariant hnew hlist (fun _ _ _ => id) hrun
  exact fun r hr => (hinv.acked r hr).imp_right mem_log_iff.mp

/-- A write that straddles a rotation and still comes before the column family is read. -/
theorem acked_kept_straddling :
    ∃ p : Pipeline, p.acked = [⟨.appended 0, [1]⟩] ∧ p.table = [⟨.appended 0, [1]⟩] ∧
      ∀ r ∈ p.acked, r ∈ p.table ∨ p.Stored r := by
  let r : Record := ⟨.appended 0, [1]⟩
  let s₀ := (Pipeline.start freshStore.toLogStore).store
  let s₁ := (s₀.takeOrphans.rotate (rotatedCf 5)).append "active" [r]
  let late : Multiset (String × List Bytes) := {("active", [[1]])}
  have hclone : Run (Guarded PipelineStep NoLateWrite) (.start freshStore.toLogStore) [.clone [[1]]]
      ⟨s₀, late, 0, 0, [], .idle, [], [], 0⟩ := .cons ⟨trivial, .clone _ (by decide)⟩ (.nil _)
  have hsetup : Run (Guarded PipelineStep NoLateWrite) _ [.drain, .rotate 5, .spawn] _ :=
    run_setup (fun _ => ⟨trivial, trivial, trivial⟩) s₀ late [] 0 (by decide)
  have hwritten : Run (Guarded PipelineStep NoLateWrite)
      ⟨s₀.takeOrphans.rotate (rotatedCf 5), late, 0, {.spawned "active"}, [], .idle, [], [], 0⟩
      [.write "active" [[1]]] ⟨s₁, 0, 0, {.spawned "active"}, [], .idle, [], [r], 1⟩ :=
    .cons ⟨Multiset.notMem_zero _, @PipelineStep.write _ "active" [[1]] 0 rfl (by decide)⟩ (.nil _)
  have hsent : Run (Guarded PipelineStep NoLateWrite) ⟨s₁, 0, 0, {.spawned "active"}, [], .idle, [], [r], 1⟩
      [.iterate "active", .compiled "active", .sent "active"]
      ⟨s₁, 0, 0, 0, [⟨"active", [r]⟩], .idle, [], [r], 1⟩ := by
    refine .cons ⟨trivial, @PipelineStep.iterate _ "active" 0 rfl⟩ ?_
    refine .cons ⟨trivial, @PipelineStep.compiled _ ⟨"active", [r]⟩ 0 rfl⟩ ?_
    exact .cons ⟨trivial, @PipelineStep.sent _ ⟨"active", [r]⟩ 0 rfl⟩ (.nil _)
  have hcommitted : Run (Guarded PipelineStep NoLateWrite) ⟨s₁, 0, 0, 0, [⟨"active", [r]⟩], .idle, [], [r], 1⟩
      [.recv, .collected, .committed] ⟨s₁, 0, 0, 0, [], .dropping ["active"], [r], [r], 1⟩ := by
    refine .cons ⟨trivial, .recv rfl rfl⟩ ?_
    refine .cons ⟨trivial, .collected rfl rfl⟩ ?_
    exact .cons ⟨trivial, .committed rfl⟩ (.nil _)
  have hrun := (((hclone.append hsetup).append hwritten).append hsent).append hcommitted
  exact ⟨_, rfl, rfl, acked_kept_without_late_writes new_freshStore (listsCf_none _) hrun⟩

lemma freshStore_log {name : String} {log : List Record} {ts : ℕ}
    (h : ((Pipeline.start freshStore.toLogStore).store.takeOrphans.rotate (rotatedCf ts)).logs name = some log) :
    log = [] := by
  dsimp only [LogStore.rotate, LogStore.takeOrphans] at h
  by_cases hname : name = rotatedCf ts
  · rw [hname, Function.update_self] at h
    exact (Option.some.inj h).symm
  · rw [Function.update_of_ne hname] at h
    dsimp only [Pipeline.start, RocksStore.toLogStore, freshStore, Db.logs] at h
    rw [Db.lookup_createMissing] at h
    split at h
    · exact (Option.some.inj h).symm
    · cases h

/-- A rotation, a whole flush cycle and its drop fall between the two steps of an append. -/
theorem straddling_append_lost :
    ¬∀ (disk : Option Db) (env : OpenEnv) (flushSizeBytes flushSizeJitterBytes : ℕ) (s : RocksStore),
      RocksStore.new disk env flushSizeBytes flushSizeJitterBytes = .ok s → Db.ListsCf disk env.listCf →
      ∀ (es : List PipelineEvent) (p : Pipeline), Run PipelineStep (.start s.toLogStore) es p →
        (∀ e ∈ es, e.Succeeds) → ∀ r ∈ p.acked, r ∈ p.table ∨ p.Stored r := by
  intro hkept
  let r : Record := ⟨.appended 0, [1]⟩
  let s₀ := (Pipeline.start freshStore.toLogStore).store
  let s₁ := s₀.takeOrphans.rotate (rotatedCf 5)
  let late : Multiset (String × List Bytes) := {("active", [[1]])}
  have hclone : Run PipelineStep (.start freshStore.toLogStore) [.clone [[1]]] ⟨s₀, late, 0, 0, [], .idle, [], [], 0⟩ :=
    .cons (.clone _ (by decide)) (.nil _)
  have hsetup : Run (Guarded PipelineStep (fun _ _ => True)) _ [.drain, .rotate 5, .spawn] _ :=
    run_setup (fun _ => ⟨trivial, trivial, trivial⟩) s₀ late [] 0 (by decide)
  have hcompiled : Run PipelineStep ⟨s₁, late, 0, {.spawned "active"}, [], .idle, [], [], 0⟩
      [.iterate "active", .compiled "active", .sent "active"]
      ⟨s₁, late, 0, 0, [⟨"active", []⟩], .idle, [], [], 0⟩ := by
    refine .cons (@PipelineStep.iterate _ "active" 0 rfl) ?_
    refine .cons (@PipelineStep.compiled _ ⟨"active", []⟩ 0 rfl) ?_
    exact .cons (@PipelineStep.sent _ ⟨"active", []⟩ 0 rfl) (.nil _)
  have hcommitted : Run PipelineStep ⟨s₁, late, 0, 0, [⟨"active", []⟩], .idle, [], [], 0⟩
      [.recv, .collected, .committed] ⟨s₁, late, 0, 0, [], .dropping ["active"], [], [], 0⟩ := by
    refine .cons (.recv rfl rfl) ?_
    refine .cons (.collected rfl rfl) ?_
    exact .cons (.committed rfl) (.nil _)
  have hlost : Run PipelineStep ⟨s₁, late, 0, 0, [], .dropping ["active"], [], [], 0⟩
      [.write "active" [[1]], .dropped "active"]
      ⟨(s₁.append "active" [r]).drop "active", 0, 0, 0, [], .dropping [], [], [r], 1⟩ := by
    refine .cons (@PipelineStep.write _ "active" [[1]] 0 rfl (by decide)) ?_
    exact .cons (.dropped rfl (by decide)) (.nil _)
  have hrun := (((hclone.append (hsetup.mono (fun _ _ _ h => h.2))).append hcompiled).append hcommitted).append hlost
  rcases hkept none ⟨none, true, true, 0⟩ 0 0 freshStore new_freshStore (listsCf_none _) _ _ hrun
    (by simp [PipelineEvent.Succeeds]) r List.mem_cons_self with htable | ⟨name, log, hlog, hr⟩
  · cases htable
  · dsimp only [LogStore.drop, LogStore.append] at hlog
    by_cases hname : name = "active"
    · rw [hname, Function.update_self] at hlog
      cases hlog
    · rw [Function.update_of_ne hname, Function.update_of_ne hname] at hlog
      rw [freshStore_log hlog] at hr
      cases hr

end MicewriterEngine.Proofs
