import MicewriterEngine.Lib.Runs
import MicewriterEngine.Model.GrpcServer
import MicewriterEngine.Model.RocksdbStore

/-!
# The flush trigger

The streams of `ingest`, the calls of `flush_now` and `run_flush_loop`, which share the store
and the `Notify` of `main`. The steps are those of the locks and atomics that they use.
`Notify` keeps at most one permit. A permit that is set while `select!` takes another branch
is kept for the next turn of the loop.

`append_batch` holds `db` for reading from its write until it returns, `rotate` holds
`active_cf` for writing from the creation of the next column family until it returns. Both
counters grow in one step of a stream, as nothing here reads `total_unflushed_bytes`.
-/

namespace MicewriterEngine

/-- A stream inside `append_batch`: after it cloned the active name, after its write, and after it
counted the bytes. Then the stream calls `notify_one` if the limit was reached. -/
inductive StreamPhase
  | receiving
  | cloned (cf : String) (cborBytes : Bytes)
  | written (batchBytes : ℕ)
  | counted (newSize : ℕ)
  | notifying

/-- The stream holds `db` for reading. -/
def StreamPhase.InDb : StreamPhase → Prop
  | .written _ => True
  | .counted _ => True
  | _ => False

/-- The flush loop in its `select!`, and in `do_flush` up to the spawning of the tasks. -/
inductive CyclePhase
  | waiting
  | starting
  | rotating (cfsToFlush : List String)
  | switched (cfsToFlush : List String) (frozen : String)
  | swapped (cfsToFlush : List String) (frozen : String) (frozenBytes : ℕ)
  | settingUp (cfsToFlush : List String)
  | returned

/-- The loop holds `active_cf` for writing. -/
def CyclePhase.InRotate : CyclePhase → Prop
  | .switched _ _ => True
  | .swapped _ _ _ => True
  | _ => False

/-- `flush_now`: its answer, and the permit after it. -/
def flushNow (enableManualFlush permit : Bool) : Ack × Bool :=
  if enableManualFlush then (⟨true, "Flush triggered"⟩, true)
  else (⟨false, "Manual flush is disabled in production"⟩, permit)

structure Trigger (ι : Type) where
  store : RocksStore
  streams : ι → StreamPhase
  /-- The permit of `flush_trigger`. -/
  permit : Bool
  cycle : CyclePhase
  /-- The value of the watch channel. -/
  shutdown : Bool
  /-- The column families that were given to flush tasks. -/
  tasks : List String

def Trigger.start (ι : Type) (s : RocksStore) : Trigger ι :=
  ⟨s, fun _ => .receiving, false, .waiting, false, []⟩

inductive TriggerEvent (ι : Type)
  | clone (i : ι) (cborBytes : Bytes)
  | write (i : ι)
  | writeFailed (i : ι)
  | fetchAdd (i : ι)
  | compare (i : ι)
  | notifyOne (i : ι)
  | flushNow
  | timer
  | notified
  | signal
  | returned
  | getOrphanedCfs
  | createCf (ts : ℕ)
  | createCfFailed
  | swap
  | resetSizeLimit (draw : ℕ)
  | spawn
  | setUpFailed
  /-- A task or the committer gives a column family back, or drops it. -/
  | retain (name : String)
  | drop (name : String)

variable {ι : Type} [DecidableEq ι]

/-- A stream goes on. -/
def Trigger.move (p : Trigger ι) (i : ι) (phase : StreamPhase) : Trigger ι :=
  { p with streams := Function.update p.streams i phase }

inductive TriggerStep (enableManualFlush : Bool) : Trigger ι → TriggerEvent ι → Trigger ι → Prop
  | clone {p : Trigger ι} {i : ι} {cborBytes : Bytes} (hphase : p.streams i = .receiving)
      (hlock : ¬p.cycle.InRotate) :
      TriggerStep enableManualFlush p (.clone i cborBytes) (p.move i (.cloned p.store.activeCf cborBytes))
  | write {p : Trigger ι} {i : ι} {cfName : String} {cborBytes : Bytes} {cf : ColumnFamily}
      (hphase : p.streams i = .cloned cfName cborBytes) (hcf : p.store.db.cfHandle cfName = some cf) :
      TriggerStep enableManualFlush p (.write i)
        { p.move i (.written (BatchLoop.putCf ⟨p.store.counter, 0, []⟩ cborBytes).batchBytes) with
          store := { p.store with
            counter := (BatchLoop.putCf ⟨p.store.counter, 0, []⟩ cborBytes).counter
            db := p.store.db.writeCf cfName cf (BatchLoop.putCf ⟨p.store.counter, 0, []⟩ cborBytes).batch } }
  | writeFailed {p : Trigger ι} {i : ι} {cfName : String} {cborBytes : Bytes} {cf : ColumnFamily}
      (hphase : p.streams i = .cloned cfName cborBytes) (hcf : p.store.db.cfHandle cfName = some cf) :
      TriggerStep enableManualFlush p (.writeFailed i)
        { p.move i .receiving with
          store := { p.store with counter := (BatchLoop.putCf ⟨p.store.counter, 0, []⟩ cborBytes).counter } }
  | writeMissing {p : Trigger ι} {i : ι} {cfName : String} {cborBytes : Bytes}
      (hphase : p.streams i = .cloned cfName cborBytes) (hcf : p.store.db.cfHandle cfName = none) :
      TriggerStep enableManualFlush p (.writeFailed i) (p.move i .receiving)
  | fetchAdd {p : Trigger ι} {i : ι} {batchBytes : ℕ} (hphase : p.streams i = .written batchBytes) :
      TriggerStep enableManualFlush p (.fetchAdd i)
        { p.move i (.counted (u64 (p.store.activeCfBytes + batchBytes))) with
          store := { p.store with
            activeCfBytes := u64 (p.store.activeCfBytes + batchBytes)
            totalUnflushedBytes := u64 (p.store.totalUnflushedBytes + batchBytes) } }
  /-- The limit is loaded, and `append_batch` returns. -/
  | compare {p : Trigger ι} {i : ι} {newSize : ℕ} (hphase : p.streams i = .counted newSize) :
      TriggerStep enableManualFlush p (.compare i)
        (p.move i (if p.store.activeCfSizeLimit ≤ newSize then .notifying else .receiving))
  | notifyOne {p : Trigger ι} {i : ι} (hphase : p.streams i = .notifying) :
      TriggerStep enableManualFlush p (.notifyOne i) { p.move i .receiving with permit := true }
  | flushNow (p : Trigger ι) :
      TriggerStep enableManualFlush p .flushNow { p with permit := (flushNow enableManualFlush p.permit).2 }
  | timer {p : Trigger ι} (hcycle : p.cycle = .waiting) :
      TriggerStep enableManualFlush p .timer { p with cycle := .starting }
  | notified {p : Trigger ι} (hcycle : p.cycle = .waiting) (hpermit : p.permit = true) :
      TriggerStep enableManualFlush p .notified { p with permit := false, cycle := .starting }
  | signal (p : Trigger ι) : TriggerStep enableManualFlush p .signal { p with shutdown := true }
  | returned {p : Trigger ι} (hcycle : p.cycle = .waiting) (hshutdown : p.shutdown = true) :
      TriggerStep enableManualFlush p .returned { p with cycle := .returned }
  | getOrphanedCfs {p : Trigger ι} (hcycle : p.cycle = .starting) :
      TriggerStep enableManualFlush p .getOrphanedCfs
        { p with store := p.store.getOrphanedCfs.2, cycle := .rotating p.store.getOrphanedCfs.1 }
  | createCf {p : Trigger ι} {cfs : List String} {ts : ℕ} {db : Db} (hcycle : p.cycle = .rotating cfs)
      (hlock : ∀ i, ¬(p.streams i).InDb) (hcreate : p.store.db.createCf (rotatedCf ts) = some db) :
      TriggerStep enableManualFlush p (.createCf ts)
        { p with
          store := { p.store with db := db, activeCf := rotatedCf ts }
          cycle := .switched cfs p.store.activeCf }
  /-- `do_flush` fails, and the column families that it took are not given back. -/
  | createCfFailed {p : Trigger ι} {cfs : List String} (hcycle : p.cycle = .rotating cfs) :
      TriggerStep enableManualFlush p .createCfFailed { p with cycle := .waiting }
  | swap {p : Trigger ι} {cfs : List String} {frozen : String} (hcycle : p.cycle = .switched cfs frozen) :
      TriggerStep enableManualFlush p .swap
        { p with
          store := { p.store with activeCfBytes := 0 }
          cycle := .swapped cfs frozen p.store.activeCfBytes }
  | resetSizeLimit {p : Trigger ι} {cfs : List String} {frozen : String} {frozenBytes : ℕ} (draw : ℕ)
      (hcycle : p.cycle = .swapped cfs frozen frozenBytes) :
      TriggerStep enableManualFlush p (.resetSizeLimit draw)
        { p with
          store := { p.store with
            frozenCfSizes := p.store.frozenCfSizes.insert frozen frozenBytes }.resetSizeLimit draw
          cycle := .settingUp (cfs ++ [frozen]) }
  | spawn {p : Trigger ι} {cfs : List String} (hcycle : p.cycle = .settingUp cfs) :
      TriggerStep enableManualFlush p .spawn { p with cycle := .waiting, tasks := p.tasks ++ cfs }
  /-- The catalog or the table cannot be had. -/
  | setUpFailed {p : Trigger ι} {cfs : List String} (hcycle : p.cycle = .settingUp cfs) :
      TriggerStep enableManualFlush p .setUpFailed { p with cycle := .waiting }
  | retain (p : Trigger ι) (name : String) :
      TriggerStep enableManualFlush p (.retain name) { p with store := p.store.retainFrozenCf name }
  | drop {p : Trigger ι} {name : String} (hlock : ∀ i, ¬(p.streams i).InDb) (dropOk : Bool) :
      TriggerStep enableManualFlush p (.drop name) { p with store := (p.store.dropFrozenCf name dropOk).2 }

end MicewriterEngine
