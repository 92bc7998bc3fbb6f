import MicewriterEngine.Model.Pipeline

/-!
# A pod and its volume

The RocksDB directory and the Iceberg table outlive the processes of a pod. Each process
opens the directory with `RocksStore::new`, runs the pipeline over the store, and ends at
any point, also inside a call. Next to what can fail in the pipeline, a batch write or the
set-up of a flush cycle can fail, a flush task can panic, a compile can read its column
family only in part, and the reply to a commit that took effect can be lost. Each process
may be built for another schema. Which values decode by it is left open, and a compile
skips the others.
-/

namespace MicewriterEngine

/-- The call behind an event. `draw ts` is the random number of the rotation at clock reading `ts`. -/
def storeCall (draw : ℕ → ℕ) (s : RocksStore) : PipelineEvent → RocksStore
  | .write cf values => (s.writeBatch cf values true).2
  | .writeMissing cf values => (s.writeBatch cf values true).2
  | .drain => s.getOrphanedCfs.2
  | .rotate ts => (s.rotate ts true (draw ts)).2
  | .retained cf => s.retainFrozenCf cf
  | .kept cf => s.retainFrozenCf cf
  | .dropped cf => (s.dropFrozenCf cf true).2
  | .dropFailed cf => (s.dropFrozenCf cf false).2
  | _ => s

/-- Without a process there is the directory and what its column families hold. -/
inductive PodPhase
  | down (disk : Option Db) (records : String → List Record)
  | up (store : RocksStore) (p : Pipeline)

structure Pod where
  phase : PodPhase
  /-- The values that decode in the running process. -/
  decodes : Bytes → Bool
  /-- The rows that earlier processes committed. -/
  earlierTable : List Record
  /-- The records of their committed batches that did not decode. -/
  earlierSkipped : List Record
  /-- The records that earlier processes acknowledged. -/
  earlierAcked : List Record
  /-- How many keys earlier processes allotted. -/
  earlierIds : ℕ
  /-- The records that a process found in the directory although they were committed before. -/
  refound : List Record
  /-- The rows of the commits that took effect and whose reply was lost. -/
  unanswered : List Record

def rowsOf (decodes : Bytes → Bool) (records : List Record) : List Record := records.filter (fun r => decodes r.value)

def skippedOf (decodes : Bytes → Bool) (records : List Record) : List Record :=
  records.filter (fun r => !decodes r.value)

namespace Pod

def empty : Pod := ⟨.down none fun _ => [], fun _ => false, [], [], [], 0, [], []⟩

def earlierCommitted (pod : Pod) : List Record := pod.earlierTable ++ pod.earlierSkipped

/-- The records of all committed batches. Lost replies are not among them. -/
def committed (pod : Pod) : List Record :=
  match pod.phase with
  | .down _ _ => pod.earlierCommitted
  | .up _ p => pod.earlierCommitted ++ p.table

/-- All rows of the Iceberg table. -/
def table (pod : Pod) : List Record :=
  match pod.phase with
  | .down _ _ => pod.earlierTable ++ pod.unanswered
  | .up _ p => pod.earlierTable ++ rowsOf pod.decodes p.table ++ pod.unanswered

/-- The records that were skipped, each in a process in which it does not decode. -/
def skipped (pod : Pod) : List Record :=
  match pod.phase with
  | .down _ _ => pod.earlierSkipped
  | .up _ p => pod.earlierSkipped ++ skippedOf pod.decodes p.table

def acked (pod : Pod) : List Record :=
  match pod.phase with
  | .down _ _ => pod.earlierAcked
  | .up _ p => pod.earlierAcked ++ p.acked

def ids (pod : Pod) : ℕ :=
  match pod.phase with
  | .down _ _ => pod.earlierIds
  | .up _ p => p.nextId

def db (pod : Pod) : Db :=
  match pod.phase with
  | .down disk _ => disk.getD ∅
  | .up s _ => s.db

def log (pod : Pod) : String → List Record :=
  match pod.phase with
  | .down _ records => records
  | .up _ p => p.log

/-- The process ends and leaves the directory. -/
def ended (pod : Pod) (db : Db) (p : Pipeline) (acked : List Record) : Pod where
  phase := .down (some db) p.log
  decodes := pod.decodes
  earlierTable := pod.earlierTable ++ rowsOf pod.decodes p.table
  earlierSkipped := pod.earlierSkipped ++ skippedOf pod.decodes p.table
  earlierAcked := pod.earlierAcked ++ acked
  earlierIds := p.nextId
  refound := pod.refound
  unanswered := pod.unanswered

/-- The pipeline of a process whose `RocksStore::new` returned `s`. -/
def resume (pod : Pod) (s : RocksStore) : Pipeline where
  store := ⟨fun name => if name ∈ s.db then some (pod.log name) else none, s.activeCf, s.orphanedCfs⟩
  appends := 0
  cycles := 0
  tasks := 0
  queue := []
  committer := .idle
  table := []
  acked := []
  nextId := pod.ids

/-- The records in the directory that were committed. -/
def committedBefore (pod : Pod) : List Record :=
  (pod.db.keys.flatMap pod.log).filter (· ∈ pod.committed)

end Pod

/-- The compile of a flush task has not returned yet. -/
def FlushTask.Compiling : FlushTask → Prop
  | .spawned _ | .iterated _ => True
  | _ => False

/-- The batch of the committer has a row. Without one there are no data files to commit. -/
def Committer.HasRows (decodes : Bytes → Bool) (c : Committer) : Prop :=
  ∃ q ∈ c.requests, ∃ r ∈ q.rows, decodes r.value = true

inductive PodEvent
  | work (e : PipelineEvent) (draw : ℕ)
  | writeFailed (cf : String) (values : List Bytes)
  | refused (cf : String) (values : List Bytes)
  | setupFailed
  | panicked (cf : String)
  | readFailed (cf : String) (read : ℕ)
  | replyLost
  | crash
  /-- The process ends after a step took effect and before its caller learns of it. -/
  | crashIn (e : PipelineEvent) (draw : ℕ)
  | openStore (env : OpenEnv) (flushSizeBytes flushSizeJitterBytes : ℕ)
  | crashInOpen (listCf : Option (List String)) (created : ℕ)

inductive PodStep : Pod → PodEvent → Pod → Prop
  | work {pod : Pod} {s : RocksStore} {p p' : Pipeline} {e : PipelineEvent} (draw : ℕ)
      (hup : pod.phase = .up s p) (h : PipelineStep p e p')
      (hrows : e = .commitFailed → p.committer.HasRows pod.decodes) :
      PodStep pod (.work e draw) { pod with phase := .up (storeCall (fun _ => draw) s e) p' }
  /-- `append_batch` allots its keys, and RocksDB refuses the batch. -/
  | writeFailed {pod : Pod} {s : RocksStore} {p : Pipeline} {cf : String} {values : List Bytes}
      {rest : Multiset (String × List Bytes)} (hup : pod.phase = .up s p)
      (hcall : p.appends = (cf, values) ::ₘ rest) (hlookup : p.store.logs cf ≠ none) :
      PodStep pod (.writeFailed cf values)
        { pod with
          phase := .up (s.writeBatch cf values false).2
            { p with appends := rest, nextId := p.nextId + values.length } }
  /-- `append_batch` finds no handle. A drop that fails inside RocksDB has removed it already, and
  the column family is in nobody's hands then. -/
  | refused {pod : Pod} {s : RocksStore} {p : Pipeline} {cf : String} {values : List Bytes}
      {rest : Multiset (String × List Bytes)} (hup : pod.phase = .up s p)
      (hcall : p.appends = (cf, values) ::ₘ rest) (hcf : cf ∉ trackedCfs p) :
      PodStep pod (.refused cf values) { pod with phase := .up s { p with appends := rest } }
  /-- `do_flush` returns `Err` from its set-up and drops the names it has taken. -/
  | setupFailed {pod : Pod} {s : RocksStore} {p : Pipeline} {c : Cycle} {rest : Multiset Cycle}
      (hup : pod.phase = .up s p) (hcycle : p.cycles = c ::ₘ rest) :
      PodStep pod .setupFailed { pod with phase := .up s { p with cycles := rest } }
  /-- The compile of a flush task panics, and the task returns `Err` without `retain_frozen_cf`. -/
  | panicked {pod : Pod} {s : RocksStore} {p : Pipeline} {t : FlushTask} {rest : Multiset FlushTask}
      (hup : pod.phase = .up s p) (htask : p.tasks = t ::ₘ rest) (hcompiling : t.Compiling) :
      PodStep pod (.panicked t.cf) { pod with phase := .up s { p with tasks := rest } }
  /-- The iterator meets an error after some records, and the compile goes on with what was read. -/
  | readFailed {pod : Pod} {s : RocksStore} {p : Pipeline} {cf : String} {rest : Multiset FlushTask} (read : ℕ)
      (hup : pod.phase = .up s p) (htask : p.tasks = .spawned cf ::ₘ rest) :
      PodStep pod (.readFailed cf read)
        { pod with phase := .up s { p with tasks := .iterated ⟨cf, (p.log cf).take read⟩ ::ₘ rest } }
  /-- The catalog commits the rows of the batch, and `commit_with_retry` sees an error. It tries
  again or gives up later. -/
  | replyLost {pod : Pod} {s : RocksStore} {p : Pipeline} {batch : List Request} (hup : pod.phase = .up s p)
      (hcommitting : p.committer = .committing batch) (hrows : p.committer.HasRows pod.decodes) :
      PodStep pod .replyLost
        { pod with unanswered := pod.unanswered ++ rowsOf pod.decodes (batch.flatMap Request.rows) }
  | crash {pod : Pod} {s : RocksStore} {p : Pipeline} (hup : pod.phase = .up s p) :
      PodStep pod .crash (pod.ended s.db p p.acked)
  | crashIn {pod : Pod} {s : RocksStore} {p p' : Pipeline} {e : PipelineEvent} (draw : ℕ)
      (hup : pod.phase = .up s p) (h : PipelineStep p e p') :
      PodStep pod (.crashIn e draw) (pod.ended (storeCall (fun _ => draw) s e).db p' p.acked)
  | opened {pod : Pod} {disk : Option Db} {records : String → List Record} {env : OpenEnv}
      {flushSizeBytes flushSizeJitterBytes : ℕ} {s : RocksStore} (decodes : Bytes → Bool)
      (hdown : pod.phase = .down disk records) (hlist : Db.ListsCf disk env.listCf)
      (hnew : RocksStore.new disk env flushSizeBytes flushSizeJitterBytes = .ok s) :
      PodStep pod (.openStore env flushSizeBytes flushSizeJitterBytes)
        { pod with phase := .up s (pod.resume s), decodes := decodes, refound := pod.refound ++ pod.committedBefore }
  | openFailed {pod : Pod} {disk : Option Db} {records : String → List Record} {env : OpenEnv}
      {flushSizeBytes flushSizeJitterBytes : ℕ} {e : Error} (hdown : pod.phase = .down disk records)
      (hlist : Db.ListsCf disk env.listCf)
      (hnew : RocksStore.new disk env flushSizeBytes flushSizeJitterBytes = .error e) :
      PodStep pod (.openStore env flushSizeBytes flushSizeJitterBytes) pod
  | crashInOpen {pod : Pod} {disk : Option Db} {records : String → List Record} {listCf : Option (List String)}
      {db : Db} (created : ℕ) (hdown : pod.phase = .down disk records) (hlist : Db.ListsCf disk listCf)
      (hopen : Db.openCfDescriptors disk (listCf.getD [initialCf]) = some db) :
      PodStep pod (.crashInOpen listCf created)
        { pod with
          phase := .down (some ((disk.getD ∅).createMissing
            (Db.defaultCf :: (listCf.getD [initialCf]).take created))) records }

/-- No batch is written to a column family that was read already, clock readings are in range,
no compile meets a read error, and no open one when it reads the last key. -/
def Pod.Regular (pod : Pod) : PodEvent → Prop
  | .work e _ | .crashIn e _ => e.ClockInRange ∧ ∀ s p, pod.phase = .up s p → NoLateWrite p e
  | .readFailed _ _ => False
  | .openStore env _ _ => env.readOk = true
  | _ => True

/-- The process works, batches are written to column families that are still to be read, and no
set-up, compile or read leaves a column family behind. -/
def Pod.Orderly (pod : Pod) : PodEvent → Prop
  | .work e _ => e.ClockInRange ∧ ∀ s p, pod.phase = .up s p → OnTimeWrite p e
  | .writeFailed _ _ | .refused _ _ | .replyLost => True
  | _ => False

end MicewriterEngine
