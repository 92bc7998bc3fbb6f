import MicewriterEngine.Lib.Runs
import MicewriterEngine.Model.LogStore

/-!
# Histories of one RocksDB directory

The directory outlives the processes that open it. A history is made of calls on the
open store, crashes between calls or inside one, and opens. Next to the process it
records, for each existing column family, the values whose write took effect and those
whose append returned `Ok`, and how many keys were allotted in total.
-/

namespace MicewriterEngine
open Lib

/-- The calls that change the column families or their contents. -/
inductive Op
  | appendBatch (values : List Bytes) (writeOk : Bool)
  | rotate (ts : ℕ) (createOk : Bool) (draw : ℕ)
  | dropFrozenCf (name : String) (dropOk : Bool)

/-- Perform a call: whether it returned `Ok`, and the store afterwards. -/
def RocksStore.perform (s : RocksStore) : Op → Bool × RocksStore
  | .appendBatch values writeOk => ((s.appendBatch values writeOk).1.isOk, (s.appendBatch values writeOk).2)
  | .rotate ts createOk draw => ((s.rotate ts createOk draw).1.isOk, (s.rotate ts createOk draw).2)
  | .dropFrozenCf name dropOk => ((s.dropFrozenCf name dropOk).1.isOk, (s.dropFrozenCf name dropOk).2)

/-- The number of keys that a call takes from the counter. -/
def RocksStore.keysAllotted (s : RocksStore) : Op → ℕ
  | .appendBatch values _ => if s.activeCf ∈ s.db then values.length else 0
  | _ => 0

/-- Record the values of a successful append under the active column family. -/
def recordAppend (active : String) (ok : Bool) : Op → (String → List Bytes) → String → List Bytes
  | .appendBatch values _, log => if ok then Function.update log active (log active ++ values) else log
  | _, log => log

/-- Forget the record of a column family that was dropped. -/
def recordDrop (ok : Bool) : Op → (String → List Bytes) → String → List Bytes
  | .dropFrozenCf name _, log => if ok then Function.update log name [] else log
  | _, log => log

/-- Either no process runs on the directory, or one has it open. -/
inductive Process
  | down (disk : Option Db)
  | up (store : RocksStore)

/-- The column families in the directory. -/
def Process.db : Process → Db
  | .down disk => disk.getD ∅
  | .up store => store.db

structure History where
  process : Process
  /-- Values whose write took effect, by column family. -/
  written : String → List Bytes
  /-- Values whose append returned `Ok`, by column family. -/
  acked : String → List Bytes
  allotted : ℕ

/-- The directory does not exist yet. -/
def History.empty : History := ⟨.down none, fun _ => [], fun _ => [], 0⟩

inductive Event
  | call (op : Op)
  | crash
  /-- The process ends after the call changed RocksDB and before it returns. -/
  | crashIn (op : Op)
  | openStore (env : OpenEnv) (flushSizeBytes flushSizeJitterBytes : ℕ)
  /-- The process ends inside `new`, when the first missing column families are created. -/
  | crashInOpen (listCf : Option (List String)) (created : ℕ)

/-- The history after a call whose effect on the process is given. -/
def History.record (h : History) (s : RocksStore) (op : Op) (returned : Bool) (process : Process) : History where
  process := process
  written := recordAppend s.activeCf (s.perform op).1 op (recordDrop (s.perform op).1 op h.written)
  acked := recordAppend s.activeCf ((s.perform op).1 && returned) op (recordDrop (s.perform op).1 op h.acked)
  allotted := h.allotted + s.keysAllotted op

inductive HistoryStep : History → Event → History → Prop
  | call {h : History} {s : RocksStore} (op : Op) (hup : h.process = .up s) :
      HistoryStep h (.call op) (h.record s op true (.up (s.perform op).2))
  | crash {h : History} {s : RocksStore} (hup : h.process = .up s) :
      HistoryStep h .crash { h with process := .down (some s.db) }
  | crashIn {h : History} {s : RocksStore} (op : Op) (hup : h.process = .up s) :
      HistoryStep h (.crashIn op) (h.record s op false (.down (some (s.perform op).2.db)))
  | opened {h : History} {disk : Option Db} {env : OpenEnv} {flushSizeBytes flushSizeJitterBytes : ℕ}
      {s : RocksStore} (hdown : h.process = .down disk) (hlist : Db.ListsCf disk env.listCf)
      (hnew : RocksStore.new disk env flushSizeBytes flushSizeJitterBytes = .ok s) :
      HistoryStep h (.openStore env flushSizeBytes flushSizeJitterBytes) { h with process := .up s }
  | openFailed {h : History} {disk : Option Db} {env : OpenEnv} {flushSizeBytes flushSizeJitterBytes : ℕ}
      {e : Error} (hdown : h.process = .down disk) (hlist : Db.ListsCf disk env.listCf)
      (hnew : RocksStore.new disk env flushSizeBytes flushSizeJitterBytes = .error e) :
      HistoryStep h (.openStore env flushSizeBytes flushSizeJitterBytes) h
  | crashInOpen {h : History} {disk : Option Db} {listCf : Option (List String)} {db : Db} (created : ℕ)
      (hdown : h.process = .down disk) (hlist : Db.ListsCf disk listCf)
      (hopen : Db.openCfDescriptors disk (listCf.getD [initialCf]) = some db) :
      HistoryStep h (.crashInOpen listCf created)
        { h with
          process := .down (some ((disk.getD ∅).createMissing
            (Db.defaultCf :: (listCf.getD [initialCf]).take created))) }

/-- No read error while `new` looks for the last key. -/
def Event.ReadsOk : Event → Prop
  | .openStore env _ _ => env.readOk = true
  | _ => True

/-- The process does not end inside a call. -/
def Event.BetweenCalls : Event → Prop
  | .crashIn _ | .crashInOpen _ _ => False
  | _ => True

/-- Clock readings fit into the `u64` that `new` parses. -/
def Event.ClockInRange : Event → Prop
  | .call (.rotate ts _ _) => ts < 2 ^ 64
  | .crashIn (.rotate ts _ _) => ts < 2 ^ 64
  | _ => True

end MicewriterEngine
