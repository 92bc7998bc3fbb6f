import MicewriterEngine.Model.GrpcServer
import MicewriterEngine.Proofs.StoreSteps

/-!
# The limit on retained column families

The limit is configured and counted, and no message is refused because of it. While cycles
fail the count grows by one with each of them, and messages are still appended.
-/

namespace MicewriterEngine.Proofs
open Lib

variable {config : Config} {p q : Engine}

/-- The message passes the frame and table checks. -/
def Passes (config : Config) (payload : Bytes) : Prop :=
  ∃ cborBytes, checkFrame config.micewriterTable payload = .ok cborBytes

/-- What the limit asks of a message: it is refused and changes nothing once the limit is reached.
Without a limit it is refused by the checks or by a failing append only. -/
structure MessageObeys (config : Config) (s : RocksStore) (payload : Bytes) (writeOk : Bool) : Prop where
  refused : 0 < config.maxRetainedFrozenCfs → config.maxRetainedFrozenCfs ≤ s.retainedCfCount →
    (ingestMessage s config.micewriterTable payload writeOk).1.ok = false ∧
      (ingestMessage s config.micewriterTable payload writeOk).2.2 = s
  disabled : config.maxRetainedFrozenCfs = 0 →
    (ingestMessage s config.micewriterTable payload writeOk).1.ok = false →
    ¬Passes config payload ∨ ∃ cborBytes e, checkFrame config.micewriterTable payload = .ok cborBytes ∧
      (s.appendBatch [cborBytes] writeOk).1 = .error e

/-- The step keeps to the limit. -/
def ObeysLimit (config : Config) (p : Engine) : EngineEvent → Prop
  | .ingest payload writeOk => MessageObeys config p.store payload writeOk
  | _ => True

/-- The limit does not apply to the message, or the message is refused before it is written. -/
def LimitIdle (config : Config) (s : RocksStore) (payload : Bytes) : Prop :=
  config.maxRetainedFrozenCfs = 0 ∨ s.retainedCfCount < config.maxRetainedFrozenCfs ∨
    ¬Passes config payload ∨ s.activeCf ∉ s.db

def NeedsNoLimit (config : Config) (p : Engine) : EngineEvent → Prop
  | .ingest payload _ => LimitIdle config p.store payload
  | _ => True

lemma u64_succ_ne (n : ℕ) : u64 (n + 1) ≠ n := by
  unfold u64
  omega

/-- A message that reaches RocksDB changes the store, also when its write fails. -/
lemma appendBatch_ne {s : RocksStore} (hactive : s.activeCf ∈ s.db) (cborBytes : Bytes) (writeOk : Bool) :
    (s.appendBatch [cborBytes] writeOk).2 ≠ s := by
  have hcounter : (s.appendBatch [cborBytes] writeOk).2.counter = u64 (s.counter + 1) := by
    rcases appendBatch_cases s [cborBytes] writeOk with ⟨hnil, -⟩ | ⟨hnot, -⟩ | ⟨-, s', heq, h⟩ | ⟨_, _, s', -, heq, h⟩
    · cases hnil
    · exact absurd hactive hnot
    · rw [heq]
      exact h.counter
    · rw [heq]
      exact h.counter
  intro heq
  rw [heq] at hcounter
  exact u64_succ_ne _ hcounter.symm

lemma ingestMessage_of_refused {s : RocksStore} {payload : Bytes} {writeOk : Bool}
    (h : ¬Passes config payload ∨ s.activeCf ∉ s.db) :
    (ingestMessage s config.micewriterTable payload writeOk).1.ok = false ∧
      (ingestMessage s config.micewriterTable payload writeOk).2.2 = s := by
  unfold ingestMessage
  cases hframe : checkFrame config.micewriterTable payload with
  | error message => exact ⟨rfl, rfl⟩
  | ok cborBytes =>
    have hactive : s.activeCf ∉ s.db := h.resolve_left (not_not.mpr ⟨cborBytes, hframe⟩)
    rcases appendBatch_cases s [cborBytes] writeOk with ⟨hnil, -⟩ | ⟨-, e, heq⟩ | ⟨hmem, -⟩ | ⟨_, _, _, hmem, -, -⟩
    · cases hnil
    · simp only [heq]
      exact ⟨trivial, trivial⟩
    · exact absurd hmem hactive
    · exact absurd (AList.lookup_isSome.mp (by rw [hmem]; rfl)) hactive

lemma ingestMessage_of_passes {s : RocksStore} {payload : Bytes} {writeOk : Bool} {cborBytes : Bytes}
    (hframe : checkFrame config.micewriterTable payload = .ok cborBytes) :
    (ingestMessage s config.micewriterTable payload writeOk).1.ok = false ↔
      ∃ e, (s.appendBatch [cborBytes] writeOk).1 = .error e := by
  unfold ingestMessage
  rw [hframe]
  rcases happend : s.appendBatch [cborBytes] writeOk with ⟨result, s'⟩
  cases result <;> simp [happend]

/-- The code obeys the limit on a message exactly when the limit does not matter for it. -/
theorem messageObeys_iff {s : RocksStore} {payload : Bytes} {writeOk : Bool} :
    MessageObeys config s payload writeOk ↔ LimitIdle config s payload := by
  constructor
  · intro h
    by_contra hidle
    simp only [LimitIdle, not_or, not_not, not_lt] at hidle
    obtain ⟨hm, hcount, ⟨cborBytes, hframe⟩, hactive⟩ := hidle
    have hsame := (h.refused (Nat.pos_of_ne_zero hm) hcount).2
    rw [ingestMessage_of_ok hframe] at hsame
    exact appendBatch_ne hactive cborBytes writeOk hsame
  · intro h
    refine ⟨fun hm hcount => ?_, fun _ hrefused => ?_⟩
    · rcases h with hzero | hlt | hrefused
      · omega
      · omega
      · exact ingestMessage_of_refused hrefused
    · by_cases hpasses : Passes config payload
      · obtain ⟨cborBytes, hframe⟩ := hpasses
        obtain ⟨e, he⟩ := (ingestMessage_of_passes hframe).mp hrefused
        exact Or.inr ⟨cborBytes, e, hframe, he⟩
      · exact Or.inl hpasses

lemma obeysLimit_iff {e : EngineEvent} : ObeysLimit config p e ↔ NeedsNoLimit config p e := by
  cases e with
  | ingest payload writeOk => exact messageObeys_iff
  | _ => exact Iff.rfl

/-- The engine after its first start. -/
def freshEngine : Engine := ⟨freshStore, 0⟩

/-- A flush cycle at clock reading `ts` whose tasks all fail. -/
def failingCycle (ts : ℕ) (cfs : List String) : List EngineEvent :=
  .getOrphanedCfs :: .rotate ts true 0 :: cfs.map .retainFrozenCf

/-- The engine after `n` failing cycles. -/
structure AfterFailures (n : ℕ) (p : Engine) : Prop where
  held : p.held = 0
  count : p.store.retainedCfCount = n
  active : p.store.activeCf ∈ p.store.db
  fresh : ∀ ts, n ≤ ts → rotatedCf ts ∉ p.store.db

variable (config) in
lemma run_retainFrozenCf (cfs : List String) (s : RocksStore) :
    ∃ s', Run (EngineStep config) ⟨s, cfs⟩ (cfs.map .retainFrozenCf) ⟨s', 0⟩ ∧
      s'.db = s.db ∧ s'.activeCf = s.activeCf ∧ s'.orphanedCfs = s.orphanedCfs ++ cfs := by
  induction cfs generalizing s with
  | nil => exact ⟨s, .nil _, rfl, rfl, (List.append_nil _).symm⟩
  | cons cf cfs ih =>
    obtain ⟨s', hrun, hdb, hactive, horphans⟩ := ih (s.retainFrozenCf cf)
    refine ⟨s', .cons (.retainFrozenCf rfl) hrun, hdb, hactive, ?_⟩
    rw [horphans, RocksStore.retainFrozenCf, List.append_assoc]
    rfl

variable (config) in
/-- One more failing cycle leaves one more column family waiting. -/
lemma AfterFailures.cycle {n : ℕ} (h : AfterFailures n p) :
    ∃ es q, Run (EngineStep config) p es q ∧ AfterFailures (n + 1) q := by
  rcases rotate_cases p.store.getOrphanedCfs.2 n true 0 with hfails | ⟨s, hrotate, hs⟩
  · have hfresh : rotatedCf n ∉ p.store.db := h.fresh n le_rfl
    simp [RocksStore.rotate, RocksStore.getOrphanedCfs, Db.createCf, hfresh] at hfails
  · obtain ⟨s', hretain, hdb, hactive, horphans⟩ :=
      run_retainFrozenCf config (p.store.activeCf :: p.store.orphanedCfs) s
    have hheld : p.store.activeCf ::ₘ (p.held + p.store.getOrphanedCfs.1) =
        ((p.store.activeCf :: p.store.orphanedCfs : List String) : Multiset String) := by
      rw [h.held, Multiset.zero_add]
      rfl
    have hrotated : EngineStep config ⟨p.store.getOrphanedCfs.2, p.held + p.store.getOrphanedCfs.1⟩
        (.rotate n true 0) ⟨s, ((p.store.activeCf :: p.store.orphanedCfs : List String) : Multiset String)⟩ := by
      rw [← hheld]
      exact .rotated hrotate
    refine ⟨failingCycle n (p.store.activeCf :: p.store.orphanedCfs), ⟨s', 0⟩,
      .cons (.getOrphanedCfs p) (.cons hrotated hretain), rfl, ?_, ?_, fun ts hts => ?_⟩
    · have hcount : p.store.orphanedCfs.length = n := h.count
      rw [RocksStore.retainedCfCount, horphans, hs.orphanedCfs]
      simp [RocksStore.getOrphanedCfs, hcount]
    · change s'.activeCf ∈ s'.db
      rw [hactive, hdb, hs.db, hs.activeCf]
      exact AList.mem_insert _ |>.mpr (Or.inl rfl)
    · change rotatedCf ts ∉ s'.db
      rw [hdb, hs.db, AList.mem_insert]
      rintro (heq | hmem)
      · have := rotatedCf_injective heq
        omega
      · exact h.fresh ts (by omega) hmem

variable (config) in
/-- Failing cycles take the count of retained column families to any number. -/
theorem failures_accumulate (n : ℕ) :
    ∃ es q, Run (EngineStep config) freshEngine es q ∧ AfterFailures n q := by
  induction n with
  | zero =>
    refine ⟨[], freshEngine, .nil _, rfl, rfl, by decide, fun ts _ hmem => ?_⟩
    have hnames : rotatedCf ts = Db.defaultCf ∨ rotatedCf ts = initialCf := by
      simpa [freshEngine, freshStore, Db.mem_createMissing] using hmem
    exact hnames.elim (rotatedCf_ne_defaultCf ts) (rotatedCf_ne_initialCf ts)
  | succ n ih =>
    obtain ⟨es, q, hrun, hq⟩ := ih
    obtain ⟨es', q', hcycle, hq'⟩ := hq.cycle config
    exact ⟨es ++ es', q', hrun.append hcycle, hq'⟩

/-- Whatever the limit is, a message that passes the checks is still appended when it is reached. -/
theorem limit_exceeded {payload : Bytes} (hpasses : Passes config payload) :
    ∃ es q, Run (EngineStep config) freshEngine es q ∧
      config.maxRetainedFrozenCfs ≤ q.store.retainedCfCount ∧
      (ingestMessage q.store config.micewriterTable payload true).1.ok = true := by
  obtain ⟨es, q, hrun, hq⟩ := failures_accumulate config config.maxRetainedFrozenCfs
  obtain ⟨cborBytes, hframe⟩ := hpasses
  obtain ⟨cf, hcf⟩ := Option.isSome_iff_exists.mp (AList.lookup_isSome.mpr hq.active)
  refine ⟨es, q, hrun, hq.count.ge, ?_⟩
  simp [ingestMessage, hframe, RocksStore.appendBatch, RocksStore.writeBatch, Db.cfHandle, hcf]

/-- Every run keeps to the limit exactly as long as the limit does not matter for its messages. -/
theorem limit_obeyed_iff {es : List EngineEvent} :
    Run (Guarded (EngineStep config) (ObeysLimit config)) p es q ↔
      Run (Guarded (EngineStep config) (NeedsNoLimit config)) p es q := by
  constructor
  · exact Run.mono (fun _ _ _ h => ⟨obeysLimit_iff.mp h.1, h.2⟩)
  · exact Run.mono (fun _ _ _ h => ⟨obeysLimit_iff.mpr h.1, h.2⟩)

/-- The defaults, for a table `t` of Glue and a limit of one. -/
def limitOfOne : Config where
  catalogType := .glue
  micewriterTable := "t"
  grpcPort := 9090
  minioUrl := none
  minioAccessKey := none
  minioSecretKey := none
  nessieUri := none
  warehouse := "s3://iceberg"
  glueCatalogId := none
  flushIntervalSecs := 300
  flushJitterSecs := 60
  flushSizeBytes := 134217728
  flushSizeJitterBytes := 67108864
  enableManualFlush := true
  rocksdbPath := "/var/lib/rocksdb"
  rocksdbSyncWrites := true
  maxRetainedFrozenCfs := 1
  writeBufferSize := 16777216
  concurrentCfFlushes := 2
  targetParquetBytes := 67108864
  parquetRowGroupBytes := 8388608
  parquetCompression := .snappy
  fieldDefs := [⟨"id", "string", true⟩]

/-- One failing cycle reaches a limit of one, and the next message is appended. -/
theorem limit_not_enforced :
    ¬∀ (config : Config) (es : List EngineEvent) (p : Engine) (payload : Bytes) (writeOk : Bool),
      0 < config.maxRetainedFrozenCfs → Run (EngineStep config) freshEngine es p →
      MessageObeys config p.store payload writeOk := by
  intro h
  let frozen : RocksStore := (freshStore.rotate 5 true 0).2
  have hrun : Run (EngineStep limitOfOne) freshEngine (failingCycle 5 ["active"])
      ⟨frozen.retainFrozenCf "active", 0⟩ :=
    .cons (.getOrphanedCfs _) (.cons (.rotated rfl) (.cons (.retainFrozenCf rfl) (.nil _)))
  have hrefused := (h limitOfOne _ _ [0, 1, 116, 5, 6] true Nat.one_pos hrun).refused Nat.one_pos le_rfl
  exact absurd hrefused.1 (by decide)

end MicewriterEngine.Proofs
