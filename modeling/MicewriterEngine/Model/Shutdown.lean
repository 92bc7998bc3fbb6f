import Mathlib.Data.Multiset.Filter
import MicewriterEngine.Lib.Runs
import MicewriterEngine.Model.Committer

/-!
# The process from its start to its exit

`main`, the flush loop, the flush tasks and the committer, with the channel of the commit
requests and its senders. What the flush cycles find in the store is outside: the set-up
of `do_flush` fails, or gives any list of column families. A compile that panics ends its
task as a compile that fails does; the store, of which it keeps another list, is not here.

The flush cycles and the emergency flush share the permits of `flush_semaphore`. A flush task
takes one before it compiles. The permit goes into the blocking closure, so it is free again
when the compile is over, in whatever way it ends.
-/

namespace MicewriterEngine

/-- A call of `do_flush`: its set-up, and the loop that spawns the tasks and collects their handles. -/
inductive FlushCall
  | settingUp
  | spawning (cfs : List String) (handles : List ℕ)

inductive MainPhase
  | serving
  | awaitingGrpc
  | awaitingLoop
  | flushing (call : FlushCall)
  | awaitingTasks (handles : List ℕ)
  | flushed
  | awaitingCommitter
  | exited

inductive FlushLoopPhase
  | waiting
  | flushing (call : FlushCall)
  | returned

variable {δ : Type}

/-- A flush task while it compiles, before its send, and before it releases what it holds. -/
inductive TaskPhase (δ : Type)
  | compiling (cf : String)
  | sending (req : CommitRequest δ)
  | ending

/-- The committer, with the tables that are left to commit and the column families that are left
to drop or to retain. -/
inductive CommitterPhase (δ : Type)
  | receiving
  | collecting (batch : List (CommitRequest δ))
  | committing (batch : List (CommitRequest δ)) (tables : List (Σ _ : String, List δ)) (fullyCommitted : Bool)
  | settling (batch : List (CommitRequest δ)) (cfs : List String) (fullyCommitted : Bool)
  | exited

/-- The requests that the committer has taken and not settled yet. -/
def CommitterPhase.batch : CommitterPhase δ → List (CommitRequest δ)
  | .collecting batch => batch
  | .committing batch _ _ => batch
  | .settling batch _ _ => batch
  | _ => []

inductive CommitterAction (δ : Type)
  | commitDataFiles (tableName : String) (dataFiles : List δ) (ok : Bool)
  | dropFrozenCf (cf : String)
  | retainFrozenCf (cf : String)

structure Daemon (δ : Type) where
  main : MainPhase
  flushLoop : FlushLoopPhase
  /-- The value of the watch channel. -/
  shutdown : Bool
  /-- The open calls of the gRPC server, such as `Ingest` streams. -/
  streams : ℕ
  /-- The flush tasks that hold a sender, with their identities. -/
  tasks : Multiset (ℕ × TaskPhase δ)
  /-- How many tasks were spawned, and how many released their sender. -/
  spawned : ℕ
  released : ℕ
  /-- The number of senders that the channel counts. -/
  senders : ℕ
  queue : List (CommitRequest δ)
  sent : List (CommitRequest δ)
  committer : CommitterPhase δ
  /-- The batches that the committer is done with, and all of its calls. -/
  batches : List (List (CommitRequest δ))
  actions : List (CommitterAction δ)

namespace Daemon

/-- The committer and the flush loop are spawned, and `main` waits for a signal. -/
def start : Daemon δ where
  main := .serving
  flushLoop := .waiting
  shutdown := false
  streams := 0
  tasks := 0
  spawned := 0
  released := 0
  senders := 2
  queue := []
  sent := []
  committer := .receiving
  batches := []
  actions := []

/-- Clone the sender and spawn a task. -/
def spawn (p : Daemon δ) (cf : String) : Daemon δ :=
  { p with
    tasks := (p.spawned, .compiling cf) ::ₘ p.tasks
    spawned := p.spawned + 1
    senders := p.senders + 1 }

end Daemon

/-- A step inside `do_flush`. -/
inductive FlushCallStep : Daemon δ → FlushCall → Daemon δ → FlushCall → Prop
  | setUp (p : Daemon δ) (cfs : List String) : FlushCallStep p .settingUp p (.spawning cfs [])
  | spawn (p : Daemon δ) (cf : String) (cfs : List String) (handles : List ℕ) :
      FlushCallStep p (.spawning (cf :: cfs) handles) (p.spawn cf) (.spawning cfs (handles ++ [p.spawned]))

/-- The clients. The server takes no new calls after the shutdown was signalled. -/
inductive ClientStep : Daemon δ → Daemon δ → Prop
  | opened {p : Daemon δ} (hserving : p.shutdown = false) : ClientStep p { p with streams := p.streams + 1 }
  | closed {p : Daemon δ} {others : ℕ} (hopen : p.streams = others + 1) : ClientStep p { p with streams := others }

/-- `main` after everything is spawned. -/
inductive MainTaskStep : Daemon δ → Daemon δ → Prop
  | signal {p : Daemon δ} (hmain : p.main = .serving) :
      MainTaskStep p { p with main := .awaitingGrpc, shutdown := true }
  /-- The server returns when its last open call has ended. -/
  | grpcDrained {p : Daemon δ} (hmain : p.main = .awaitingGrpc) (hclosed : p.streams = 0) :
      MainTaskStep p { p with main := .awaitingLoop }
  | loopJoined {p : Daemon δ} (hmain : p.main = .awaitingLoop) (hloop : p.flushLoop = .returned) :
      MainTaskStep p { p with main := .flushing .settingUp }
  | emergency {p p' : Daemon δ} {call call' : FlushCall} (hmain : p.main = .flushing call)
      (hflush : FlushCallStep p call p' call') :
      MainTaskStep p { p' with main := .flushing call' }
  | emergencyFailed {p : Daemon δ} (hmain : p.main = .flushing .settingUp) :
      MainTaskStep p { p with main := .flushed }
  | emergencySpawned {p : Daemon δ} {handles : List ℕ} (hmain : p.main = .flushing (.spawning [] handles)) :
      MainTaskStep p { p with main := .awaitingTasks handles }
  | taskJoined {p : Daemon δ} {id : ℕ} {handles : List ℕ} (hmain : p.main = .awaitingTasks (id :: handles))
      (hended : ∀ task ∈ p.tasks, task.1 ≠ id) :
      MainTaskStep p { p with main := .awaitingTasks handles }
  | allJoined {p : Daemon δ} (hmain : p.main = .awaitingTasks []) :
      MainTaskStep p { p with main := .flushed }
  | senderDropped {p : Daemon δ} (hmain : p.main = .flushed) :
      MainTaskStep p { p with main := .awaitingCommitter, senders := p.senders - 1 }
  | committerJoined {p : Daemon δ} (hmain : p.main = .awaitingCommitter) (hcommitter : p.committer = .exited) :
      MainTaskStep p { p with main := .exited }

/-- `run_flush_loop`. It drops its sender when it returns. -/
inductive FlushLoopStep : Daemon δ → Daemon δ → Prop
  | triggered {p : Daemon δ} (hloop : p.flushLoop = .waiting) :
      FlushLoopStep p { p with flushLoop := .flushing .settingUp }
  | cycle {p p' : Daemon δ} {call call' : FlushCall} (hloop : p.flushLoop = .flushing call)
      (hflush : FlushCallStep p call p' call') :
      FlushLoopStep p { p' with flushLoop := .flushing call' }
  | cycleFailed {p : Daemon δ} (hloop : p.flushLoop = .flushing .settingUp) :
      FlushLoopStep p { p with flushLoop := .waiting }
  /-- The handles are dropped, and the tasks go on. -/
  | cycleSpawned {p : Daemon δ} {handles : List ℕ} (hloop : p.flushLoop = .flushing (.spawning [] handles)) :
      FlushLoopStep p { p with flushLoop := .waiting }
  | returned {p : Daemon δ} (hloop : p.flushLoop = .waiting) (hshutdown : p.shutdown = true) :
      FlushLoopStep p { p with flushLoop := .returned, senders := p.senders - 1 }

/-- A flush task. The channel is closed when the committer has exited. -/
inductive FlushTaskStep (tableName : String) : Daemon δ → Daemon δ → Prop
  | compiled {p : Daemon δ} {id : ℕ} {cf : String} {rest : Multiset (ℕ × TaskPhase δ)} (dataFiles : List δ)
      (htask : p.tasks = (id, .compiling cf) ::ₘ rest) :
      FlushTaskStep tableName p
        { p with tasks := (id, .sending ⟨cf, [(tableName, dataFiles)]⟩) ::ₘ rest }
  /-- The column family is retained, unless the compile panicked. -/
  | compileFailed {p : Daemon δ} {id : ℕ} {cf : String} {rest : Multiset (ℕ × TaskPhase δ)}
      (htask : p.tasks = (id, .compiling cf) ::ₘ rest) :
      FlushTaskStep tableName p { p with tasks := (id, .ending) ::ₘ rest }
  | sent {p : Daemon δ} {id : ℕ} {req : CommitRequest δ} {rest : Multiset (ℕ × TaskPhase δ)}
      (htask : p.tasks = (id, .sending req) ::ₘ rest) (hopen : p.committer ≠ .exited) :
      FlushTaskStep tableName p
        { p with
          tasks := (id, .ending) ::ₘ rest
          queue := p.queue ++ [req]
          sent := p.sent ++ [req] }
  | sendFailed {p : Daemon δ} {id : ℕ} {req : CommitRequest δ} {rest : Multiset (ℕ × TaskPhase δ)}
      (htask : p.tasks = (id, .sending req) ::ₘ rest) (hclosed : p.committer = .exited) :
      FlushTaskStep tableName p { p with tasks := (id, .ending) ::ₘ rest }
  | ended {p : Daemon δ} {id : ℕ} {rest : Multiset (ℕ × TaskPhase δ)} (htask : p.tasks = (id, .ending) ::ₘ rest) :
      FlushTaskStep tableName p
        { p with
          tasks := rest
          released := p.released + 1
          senders := p.senders - 1 }

/-- `run_committer_loop`. -/
inductive CommitterStep : Daemon δ → Daemon δ → Prop
  | recv {p : Daemon δ} {req : CommitRequest δ} {rest : List (CommitRequest δ)} (hphase : p.committer = .receiving)
      (hqueue : p.queue = req :: rest) :
      CommitterStep p { p with queue := rest, committer := .collecting [req] }
  | recvNone {p : Daemon δ} (hphase : p.committer = .receiving) (hqueue : p.queue = []) (hsenders : p.senders = 0) :
      CommitterStep p { p with committer := .exited }
  | tryRecv {p : Daemon δ} {batch rest : List (CommitRequest δ)} {req : CommitRequest δ}
      (hphase : p.committer = .collecting batch) (hqueue : p.queue = req :: rest) :
      CommitterStep p { p with queue := rest, committer := .collecting (batch ++ [req]) }
  /-- `try_recv` may find no message at any time. -/
  | tryRecvError {p : Daemon δ} {batch : List (CommitRequest δ)} (hphase : p.committer = .collecting batch) :
      CommitterStep p { p with committer := .committing batch (mergeDataFiles batch).entries true }
  | noDataFiles {p : Daemon δ} {batch : List (CommitRequest δ)} {tableName : String}
      {tables : List (Σ _ : String, List δ)} {fullyCommitted : Bool}
      (hphase : p.committer = .committing batch (⟨tableName, []⟩ :: tables) fullyCommitted) :
      CommitterStep p { p with committer := .committing batch tables fullyCommitted }
  | commit {p : Daemon δ} {batch : List (CommitRequest δ)} {tableName : String} {dataFiles : List δ}
      {tables : List (Σ _ : String, List δ)} {fullyCommitted : Bool} (ok : Bool)
      (hphase : p.committer = .committing batch (⟨tableName, dataFiles⟩ :: tables) fullyCommitted)
      (hfiles : dataFiles ≠ []) :
      CommitterStep p
        { p with
          committer := .committing batch tables (fullyCommitted && ok)
          actions := p.actions ++ [.commitDataFiles tableName dataFiles ok] }
  | committed {p : Daemon δ} {batch : List (CommitRequest δ)} {fullyCommitted : Bool}
      (hphase : p.committer = .committing batch [] fullyCommitted) :
      CommitterStep p { p with committer := .settling batch (batch.map CommitRequest.cfName) fullyCommitted }
  | drop {p : Daemon δ} {batch : List (CommitRequest δ)} {cf : String} {cfs : List String}
      (hphase : p.committer = .settling batch (cf :: cfs) true) :
      CommitterStep p
        { p with committer := .settling batch cfs true, actions := p.actions ++ [.dropFrozenCf cf] }
  | retain {p : Daemon δ} {batch : List (CommitRequest δ)} {cf : String} {cfs : List String}
      (hphase : p.committer = .settling batch (cf :: cfs) false) :
      CommitterStep p
        { p with committer := .settling batch cfs false, actions := p.actions ++ [.retainFrozenCf cf] }
  | settled {p : Daemon δ} {batch : List (CommitRequest δ)} {fullyCommitted : Bool}
      (hphase : p.committer = .settling batch [] fullyCommitted) :
      CommitterStep p { p with committer := .receiving, batches := p.batches ++ [batch] }

/-- The party that takes a step. -/
inductive Party
  | client
  | main
  | flushLoop
  | flushTask
  | committer

inductive DaemonStep (tableName : String) : Daemon δ → Party → Daemon δ → Prop
  | client {p q : Daemon δ} (h : ClientStep p q) : DaemonStep tableName p .client q
  | main {p q : Daemon δ} (h : MainTaskStep p q) : DaemonStep tableName p .main q
  | flushLoop {p q : Daemon δ} (h : FlushLoopStep p q) : DaemonStep tableName p .flushLoop q
  | flushTask {p q : Daemon δ} (h : FlushTaskStep tableName p q) : DaemonStep tableName p .flushTask q
  | committer {p q : Daemon δ} (h : CommitterStep p q) : DaemonStep tableName p .committer q

/-! ### The flush semaphore -/

def compilingTask : ℕ × TaskPhase δ → Option ℕ
  | (id, .compiling _) => some id
  | _ => none

/-- The tasks whose compile is not over, with or without a permit. -/
def Daemon.compiling (p : Daemon δ) : Multiset ℕ := p.tasks.filterMap compilingTask

structure PermitDaemon (δ : Type) where
  daemon : Daemon δ
  /-- The permits that no task holds. -/
  permits : ℕ
  /-- The tasks in `compile_cf_pipeline`, each with a permit. -/
  running : Multiset ℕ

def PermitDaemon.start (concurrentCfFlushes : ℕ) : PermitDaemon δ := ⟨.start, concurrentCfFlushes, 0⟩

inductive PermitStep (tableName : String) : PermitDaemon δ → Party → PermitDaemon δ → Prop
  | client {p : PermitDaemon δ} {q : Daemon δ} (h : ClientStep p.daemon q) :
      PermitStep tableName p .client { p with daemon := q }
  | main {p : PermitDaemon δ} {q : Daemon δ} (h : MainTaskStep p.daemon q) :
      PermitStep tableName p .main { p with daemon := q }
  | flushLoop {p : PermitDaemon δ} {q : Daemon δ} (h : FlushLoopStep p.daemon q) :
      PermitStep tableName p .flushLoop { p with daemon := q }
  | committer {p : PermitDaemon δ} {q : Daemon δ} (h : CommitterStep p.daemon q) :
      PermitStep tableName p .committer { p with daemon := q }
  | acquire {p : PermitDaemon δ} {id : ℕ} (htask : id ∈ p.daemon.compiling) (hwaiting : id ∉ p.running)
      (hpermit : 0 < p.permits) :
      PermitStep tableName p .flushTask
        { p with permits := p.permits - 1, running := id ::ₘ p.running }
  /-- The compile returns or panics, and its permit is dropped. -/
  | compileEnded {p : PermitDaemon δ} {q : Daemon δ} {id : ℕ} {others : Multiset ℕ}
      (hrunning : p.running = id ::ₘ others) (h : FlushTaskStep tableName p.daemon q)
      (hended : p.daemon.compiling = id ::ₘ q.compiling) :
      PermitStep tableName p .flushTask ⟨q, p.permits + 1, others⟩
  /-- What a task does after its compile. -/
  | taskGoesOn {p : PermitDaemon δ} {q : Daemon δ} (h : FlushTaskStep tableName p.daemon q)
      (hcompiled : q.compiling = p.daemon.compiling) :
      PermitStep tableName p .flushTask { p with daemon := q }

end MicewriterEngine
