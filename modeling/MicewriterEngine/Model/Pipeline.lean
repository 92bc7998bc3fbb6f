import Mathlib.Data.Multiset.Bind
import Mathlib.Data.Multiset.Filter
import MicewriterEngine.Lib.Runs
import MicewriterEngine.Model.LogStore

/-!
# The pipeline of one process

Any number of `append_batch` callers, flush cycles and flush tasks, the commit channel and
the committer, interleaved at the granularity of their lock-protected steps, over the
store as a family of logs. Each record carries an identity that the code does not see.
A `CommitRequest` is for the one pinned table and is shown by the rows of its data files.
-/

namespace MicewriterEngine

/-- A record that the process found in a column family, or the n-th that it appended. -/
inductive RecordId
  | found (cf : String) (n : ℕ)
  | appended (n : ℕ)
  deriving DecidableEq

structure Record where
  id : RecordId
  value : Bytes
  deriving DecidableEq

def tagFrom (tag : ℕ → RecordId) : ℕ → List Bytes → List Record
  | _, [] => []
  | n, v :: values => ⟨tag n, v⟩ :: tagFrom tag (n + 1) values

structure Request where
  cf : String
  rows : List Record
  deriving DecidableEq

/-- A `do_flush` in its set-up part, after `get_orphaned_cfs` or after `rotate`. -/
inductive Cycle
  | drained (cfs : List String)
  | frozen (cfs : List String)

def Cycle.cfs : Cycle → List String
  | .drained cfs => cfs
  | .frozen cfs => cfs

/-- A flush task before and after `iterate_cf`, before its send, and before it retains. -/
inductive FlushTask
  | spawned (cf : String)
  | iterated (r : Request)
  | compiled (r : Request)
  | failed (cf : String)

def FlushTask.cf : FlushTask → String
  | .spawned cf => cf
  | .iterated r => r.cf
  | .compiled r => r.cf
  | .failed cf => cf

def FlushTask.request : FlushTask → Option Request
  | .iterated r => some r
  | .compiled r => some r
  | _ => none

/-- The committer loop: its batch before the commit, and what is left to drop or to retain. -/
inductive Committer
  | idle
  | collecting (batch : List Request)
  | committing (batch : List Request)
  | dropping (cfs : List String)
  | retaining (cfs : List String)

def Committer.requests : Committer → List Request
  | .collecting batch => batch
  | .committing batch => batch
  | _ => []

def Committer.droppingCfs : Committer → List String
  | .dropping cfs => cfs
  | _ => []

def Committer.cfs : Committer → List String
  | .idle => []
  | .collecting batch => batch.map Request.cf
  | .committing batch => batch.map Request.cf
  | .dropping cfs => cfs
  | .retaining cfs => cfs

structure Pipeline where
  store : LogStore Record
  /-- Calls of `append_batch` that have cloned the active name and not written yet. -/
  appends : Multiset (String × List Bytes)
  cycles : Multiset Cycle
  tasks : Multiset FlushTask
  queue : List Request
  committer : Committer
  /-- The rows that this process committed. -/
  table : List Record
  /-- The records whose `append_batch` returned `Ok`. -/
  acked : List Record
  nextId : ℕ

namespace Pipeline

/-- The process after `RocksStore::new`. -/
def start (s : LogStore Bytes) : Pipeline where
  store := ⟨fun name => (s.logs name).map (tagFrom (.found name) 0), s.activeCf, s.orphanedCfs⟩
  appends := 0
  cycles := 0
  tasks := 0
  queue := []
  committer := .idle
  table := []
  acked := []
  nextId := 0

def log (p : Pipeline) (name : String) : List Record := (p.store.logs name).getD []

def Stored (p : Pipeline) (r : Record) : Prop := ∃ name log, p.store.logs name = some log ∧ r ∈ log

def newRecords (p : Pipeline) (values : List Bytes) : List Record := tagFrom .appended p.nextId values

/-- The column families in the hands of a party: waiting, in a cycle, a task, the channel or the
current batch of the committer. -/
def heldCfs (p : Pipeline) : Multiset String :=
  (p.store.orphanedCfs : Multiset String) + p.cycles.bind (fun c => (c.cfs : Multiset String)) +
    p.tasks.map FlushTask.cf + (p.queue.map Request.cf : Multiset String) + (p.committer.cfs : Multiset String)

/-- The compiled column families on their way to the table. -/
def requests (p : Pipeline) : Multiset Request :=
  p.tasks.filterMap FlushTask.request + (p.queue : Multiset Request) + (p.committer.requests : Multiset Request)

end Pipeline

/-- The active column family and those in somebody's hands. -/
def trackedCfs (p : Pipeline) : Multiset String := {p.store.activeCf} + p.heldCfs

/-- The column families that were read and are still to be dropped, if all goes well. -/
def readCfs (p : Pipeline) : Multiset String :=
  p.requests.map Request.cf + (p.committer.droppingCfs : Multiset String)

/-! ### Steps -/

inductive PipelineEvent
  | clone (values : List Bytes)
  | write (cf : String) (values : List Bytes)
  | writeMissing (cf : String) (values : List Bytes)
  | drain
  | rotate (ts : ℕ)
  | spawn
  | iterate (cf : String)
  | compiled (cf : String)
  | buildFailed (cf : String)
  | compileFailed (cf : String)
  | sent (cf : String)
  | sendFailed (cf : String)
  | retained (cf : String)
  | recv
  | tryRecv
  | collected
  | committed
  | commitFailed
  | dropped (cf : String)
  | dropFailed (cf : String)
  | kept (cf : String)
  | settled

/-- Nothing fails in this event. -/
def PipelineEvent.Succeeds : PipelineEvent → Prop
  | .writeMissing _ _ | .buildFailed _ | .compileFailed _ | .sendFailed _ | .commitFailed | .dropFailed _ => False
  | _ => True

inductive PipelineStep : Pipeline → PipelineEvent → Pipeline → Prop
  /-- `append_batch` with some values clones the name of the active column family. -/
  | clone (p : Pipeline) {values : List Bytes} (hvalues : values ≠ []) :
      PipelineStep p (.clone values) { p with appends := (p.store.activeCf, values) ::ₘ p.appends }
  /-- It looks the column family up, writes its batch and returns `Ok`. -/
  | write {p : Pipeline} {cf : String} {values : List Bytes} {rest : Multiset (String × List Bytes)}
      (hcall : p.appends = (cf, values) ::ₘ rest) (hlookup : p.store.logs cf ≠ none) :
      PipelineStep p (.write cf values)
        { p with
          store := p.store.append cf (p.newRecords values)
          appends := rest
          acked := p.acked ++ p.newRecords values
          nextId := p.nextId + values.length }
  /-- It does not find the column family and returns `Err`. -/
  | writeMissing {p : Pipeline} {cf : String} {values : List Bytes} {rest : Multiset (String × List Bytes)}
      (hcall : p.appends = (cf, values) ::ₘ rest) (hlookup : p.store.logs cf = none) :
      PipelineStep p (.writeMissing cf values) { p with appends := rest }
  /-- `do_flush` starts and takes the waiting column families. -/
  | drain (p : Pipeline) :
      PipelineStep p .drain
        { p with store := p.store.takeOrphans, cycles := .drained p.store.orphanedCfs ::ₘ p.cycles }
  | rotate {p : Pipeline} {cfs : List String} {rest : Multiset Cycle} (ts : ℕ)
      (hcycle : p.cycles = .drained cfs ::ₘ rest) (hfresh : p.store.logs (rotatedCf ts) = none) :
      PipelineStep p (.rotate ts)
        { p with
          store := p.store.rotate (rotatedCf ts)
          cycles := .frozen (cfs ++ [p.store.activeCf]) ::ₘ rest }
  /-- The rest of the set-up succeeds and a task is spawned for each column family. -/
  | spawn {p : Pipeline} {cfs : List String} {rest : Multiset Cycle} (hcycle : p.cycles = .frozen cfs ::ₘ rest) :
      PipelineStep p .spawn
        { p with cycles := rest, tasks := ((cfs.map .spawned : List FlushTask) : Multiset FlushTask) + p.tasks }
  /-- The iterator reads the column family; a missing one yields an ignored error and no rows. -/
  | iterate {p : Pipeline} {cf : String} {rest : Multiset FlushTask} (htask : p.tasks = .spawned cf ::ₘ rest) :
      PipelineStep p (.iterate cf) { p with tasks := .iterated ⟨cf, p.log cf⟩ ::ₘ rest }
  | compiled {p : Pipeline} {r : Request} {rest : Multiset FlushTask} (htask : p.tasks = .iterated r ::ₘ rest) :
      PipelineStep p (.compiled r.cf) { p with tasks := .compiled r ::ₘ rest }
  | buildFailed {p : Pipeline} {cf : String} {rest : Multiset FlushTask} (htask : p.tasks = .spawned cf ::ₘ rest) :
      PipelineStep p (.buildFailed cf) { p with tasks := .failed cf ::ₘ rest }
  | compileFailed {p : Pipeline} {r : Request} {rest : Multiset FlushTask}
      (htask : p.tasks = .iterated r ::ₘ rest) :
      PipelineStep p (.compileFailed r.cf) { p with tasks := .failed r.cf ::ₘ rest }
  | sent {p : Pipeline} {r : Request} {rest : Multiset FlushTask} (htask : p.tasks = .compiled r ::ₘ rest) :
      PipelineStep p (.sent r.cf) { p with tasks := rest, queue := p.queue ++ [r] }
  | sendFailed {p : Pipeline} {r : Request} {rest : Multiset FlushTask} (htask : p.tasks = .compiled r ::ₘ rest) :
      PipelineStep p (.sendFailed r.cf) { p with tasks := .failed r.cf ::ₘ rest }
  | retained {p : Pipeline} {cf : String} {rest : Multiset FlushTask} (htask : p.tasks = .failed cf ::ₘ rest) :
      PipelineStep p (.retained cf) { p with store := p.store.retain cf, tasks := rest }
  | recv {p : Pipeline} {r : Request} {rest : List Request} (hidle : p.committer = .idle)
      (hqueue : p.queue = r :: rest) :
      PipelineStep p .recv { p with queue := rest, committer := .collecting [r] }
  | tryRecv {p : Pipeline} {r : Request} {batch rest : List Request} (hcollecting : p.committer = .collecting batch)
      (hqueue : p.queue = r :: rest) :
      PipelineStep p .tryRecv { p with queue := rest, committer := .collecting (batch ++ [r]) }
  | collected {p : Pipeline} {batch : List Request} (hcollecting : p.committer = .collecting batch)
      (hqueue : p.queue = []) :
      PipelineStep p .collected { p with committer := .committing batch }
  /-- The rows of all requests are committed at once. Without rows nothing needs to be. -/
  | committed {p : Pipeline} {batch : List Request} (hcommitting : p.committer = .committing batch) :
      PipelineStep p .committed
        { p with table := p.table ++ batch.flatMap Request.rows, committer := .dropping (batch.map Request.cf) }
  | commitFailed {p : Pipeline} {batch : List Request} (hcommitting : p.committer = .committing batch)
      (hrows : batch.flatMap Request.rows ≠ []) :
      PipelineStep p .commitFailed { p with committer := .retaining (batch.map Request.cf) }
  | dropped {p : Pipeline} {cf : String} {cfs : List String} (hdropping : p.committer = .dropping (cf :: cfs))
      (hexists : p.store.logs cf ≠ none) :
      PipelineStep p (.dropped cf) { p with store := p.store.drop cf, committer := .dropping cfs }
  /-- The committer does not look at the result of the drop. -/
  | dropFailed {p : Pipeline} {cf : String} {cfs : List String} (hdropping : p.committer = .dropping (cf :: cfs)) :
      PipelineStep p (.dropFailed cf) { p with committer := .dropping cfs }
  | kept {p : Pipeline} {cf : String} {cfs : List String} (hretaining : p.committer = .retaining (cf :: cfs)) :
      PipelineStep p (.kept cf) { p with store := p.store.retain cf, committer := .retaining cfs }
  | settled {p : Pipeline} (hdone : p.committer = .dropping [] ∨ p.committer = .retaining []) :
      PipelineStep p .settled { p with committer := .idle }

/-- An `append_batch` that is atomic with respect to `rotate` writes to the column family that is
still the active one. -/
def AtomicAppend (p : Pipeline) : PipelineEvent → Prop
  | .write cf _ => cf = p.store.activeCf
  | _ => True

/-- No column family that was read and is on its way to the table or to its drop is written to. -/
def NoLateWrite (p : Pipeline) : PipelineEvent → Prop
  | .write cf _ => cf ∉ readCfs p
  | _ => True

/-- A batch is written to a column family that is still to be read. -/
def OnTimeWrite (p : Pipeline) : PipelineEvent → Prop
  | .write cf _ => cf ∈ trackedCfs p ∧ cf ∉ readCfs p
  | _ => True

/-- Clock readings fit into the `u64` that `new` parses. -/
def PipelineEvent.ClockInRange : PipelineEvent → Prop
  | .rotate ts => ts < 2 ^ 64
  | _ => True

end MicewriterEngine
