import MicewriterEngine.Model.History

/-!
# The handles of an open store

The `rocksdb` crate finds a column family through a map of handles. `drop_cf` takes the
handle out of the map before it asks RocksDB, so a column family whose drop RocksDB refuses
is left without a handle until the next open.
-/

namespace MicewriterEngine
open Lib

/-- A store and the names in its map of handles. -/
structure OpenStore where
  store : RocksStore
  handles : List String

namespace OpenStore

/-- After an open every column family has a handle. -/
def opened (s : RocksStore) : OpenStore := ⟨s, s.db.keys⟩

def cfHandle (o : OpenStore) (name : String) : Option ColumnFamily :=
  if name ∈ o.handles then o.store.db.cfHandle name else none

def appendBatch (o : OpenStore) (values : List Bytes) (writeOk : Bool) : Except Error Bool × OpenStore :=
  if values.isEmpty then (.ok false, o)
  else
    match o.cfHandle o.store.activeCf with
    | none => (.error (.anyhow s!"CF '{o.store.activeCf}' not found"), o)
    | some _ =>
      ((o.store.appendBatch values writeOk).1, { o with store := (o.store.appendBatch values writeOk).2 })

/-- `create_cf` puts the handle of the new column family into the map. -/
def rotate (o : OpenStore) (ts : ℕ) (createOk : Bool) (draw : ℕ) : Except Error String × OpenStore :=
  match o.store.rotate ts createOk draw with
  | (.ok frozen, s) => (.ok frozen, ⟨s, rotatedCf ts :: o.handles⟩)
  | (.error e, s) => (.error e, { o with store := s })

/-- `drop_cf` fails without a handle, and else takes it whatever RocksDB answers. -/
def dropFrozenCf (o : OpenStore) (name : String) (dropOk : Bool) : Except Error Unit × OpenStore :=
  if name ∈ o.handles then
    ((o.store.dropFrozenCf name dropOk).1,
      ⟨(o.store.dropFrozenCf name dropOk).2, o.handles.filter (· ≠ name)⟩)
  else (.error .rocksdb, o)

def iterateCf {σ : Type} (o : OpenStore) (name : String) (readErrorAt : Option ℕ)
    (f : σ → Bytes → Except Error Unit × σ) (acc : σ) : Except Error Unit × σ :=
  match o.cfHandle name with
  | none => (.error (.anyhow s!"CF '{name}' not found"), acc)
  | some cf => RocksStore.iterateItems f (RocksStore.iteratorStart cf readErrorAt) acc

/-- Perform a call: whether it returned `Ok`, and the store afterwards. -/
def perform (o : OpenStore) : Op → Bool × OpenStore
  | .appendBatch values writeOk => ((o.appendBatch values writeOk).1.isOk, (o.appendBatch values writeOk).2)
  | .rotate ts createOk draw => ((o.rotate ts createOk draw).1.isOk, (o.rotate ts createOk draw).2)
  | .dropFrozenCf name dropOk => ((o.dropFrozenCf name dropOk).1.isOk, (o.dropFrozenCf name dropOk).2)

/-- The number of keys that a call takes from the counter. -/
def keysAllotted (o : OpenStore) : Op → ℕ
  | .appendBatch values _ => if (o.cfHandle o.store.activeCf).isSome then values.length else 0
  | _ => 0

/-- The column family whose drop fails inside RocksDB. -/
def failedDrop (o : OpenStore) : Op → List String
  | .dropFrozenCf name dropOk =>
    if name ∈ o.handles ∧ (o.store.dropFrozenCf name dropOk).1.isOk = false then [name] else []
  | _ => []

end OpenStore

/-! ### Histories -/

inductive HandleProcess
  | down (disk : Option Db)
  | up (o : OpenStore)

/-- A sequential history of one directory. -/
structure HandleHistory where
  process : HandleProcess
  /-- Values whose append returned `Ok`, by column family. -/
  acked : String → List Bytes
  allotted : ℕ
  /-- The column families whose drop failed inside RocksDB since the last open. -/
  failedDrops : List String

def HandleHistory.empty : HandleHistory := ⟨.down none, fun _ => [], 0, []⟩

/-- The history after a call. -/
def HandleHistory.record (h : HandleHistory) (o : OpenStore) (op : Op) : HandleHistory where
  process := .up (o.perform op).2
  acked := recordAppend o.store.activeCf (o.perform op).1 op (recordDrop (o.perform op).1 op h.acked)
  allotted := h.allotted + o.keysAllotted op
  failedDrops := o.failedDrop op ++ h.failedDrops

def HandleProcess.directory : HandleProcess → Process
  | .down disk => .down disk
  | .up o => .up o.store

/-- The history of the directory. Between two calls everything written is acknowledged. -/
def HandleHistory.directory (h : HandleHistory) : History := ⟨h.process.directory, h.acked, h.acked, h.allotted⟩

/-- Calls, ends of the process between two calls, and opens. -/
inductive HandleStep : HandleHistory → Event → HandleHistory → Prop
  | call {h : HandleHistory} {o : OpenStore} (op : Op) (hup : h.process = .up o) :
      HandleStep h (.call op) (h.record o op)
  | crash {h : HandleHistory} {o : OpenStore} (hup : h.process = .up o) :
      HandleStep h .crash { h with process := .down (some o.store.db) }
  | opened {h : HandleHistory} {disk : Option Db} {env : OpenEnv} {flushSizeBytes flushSizeJitterBytes : ℕ}
      {s : RocksStore} (hdown : h.process = .down disk) (hlist : Db.ListsCf disk env.listCf)
      (hnew : RocksStore.new disk env flushSizeBytes flushSizeJitterBytes = .ok s) :
      HandleStep h (.openStore env flushSizeBytes flushSizeJitterBytes)
        { h with process := .up (.opened s), failedDrops := [] }
  | openFailed {h : HandleHistory} {disk : Option Db} {env : OpenEnv} {flushSizeBytes flushSizeJitterBytes : ℕ}
      {e : Error} (hdown : h.process = .down disk) (hlist : Db.ListsCf disk env.listCf)
      (hnew : RocksStore.new disk env flushSizeBytes flushSizeJitterBytes = .error e) :
      HandleStep h (.openStore env flushSizeBytes flushSizeJitterBytes) h

end MicewriterEngine
