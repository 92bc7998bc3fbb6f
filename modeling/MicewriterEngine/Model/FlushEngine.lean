import MicewriterEngine.Model.RocksdbStore

/-!
# Flush cycles

`do_flush`, the task that it spawns for each column family, and the pipeline that compiles
a column family to data files. The type `ε` is that of the decoded records, and a data
file is shown by the batches written to it.
-/

namespace MicewriterEngine

/-- What `compile_cf_pipeline` meets outside: whether the writer can be built and closed, where
the iteration fails, and which encodings and writes succeed, counted from zero. -/
structure CompileEnv where
  buildOk : Bool
  readErrorAt : Option ℕ
  encodeOk : ℕ → Bool
  writeOk : ℕ → Bool
  closeOk : Bool

/-- The variables of `compile_cf_pipeline`, with the batches in the writer and the number of
calls of `flush_events_to_writer`. -/
structure CompileState (ε : Type) where
  events : List ε
  ioErr : Option Error
  written : List (List ε)
  flushes : ℕ

variable {ε : Type}

def CompileState.start : CompileState ε := ⟨[], none, [], 0⟩

/-- Encode the events as one batch and write it. The events are cleared when both succeed. -/
def flushEventsToWriter (env : CompileEnv) (st : CompileState ε) : Except Error Unit × CompileState ε :=
  let attempted := { st with flushes := st.flushes + 1 }
  if !env.encodeOk st.flushes then
    (.error (.anyhow "Failed to encode struct to Arrow RecordBatch"), attempted)
  else if !env.writeOk st.flushes then (.error (.anyhow "IcebergWriter::write failed"), attempted)
  else (.ok (), { attempted with written := st.written ++ [st.events], events := [] })

/-- Keep the event of a record. A record that does not decode is skipped with a warning. -/
def pushEvent (fromReader : Bytes → Except Error ε) (st : CompileState ε) (cborBytes : Bytes) : CompileState ε :=
  match fromReader cborBytes with
  | .ok event => { st with events := st.events ++ [event] }
  | .error _ => st

/-- The callback that `compile_cf_pipeline` passes to `iterate_cf`. -/
def compileRecord (fromReader : Bytes → Except Error ε) (env : CompileEnv) (st : CompileState ε)
    (cborBytes : Bytes) : Except Error Unit × CompileState ε :=
  let st := pushEvent fromReader st cborBytes
  if 10000 ≤ st.events.length then
    match flushEventsToWriter env st with
    | (.ok (), st) => (.ok (), st)
    | (.error e, st) => (.error (.anyhow "Writer error"), { st with ioErr := some e })
  else (.ok (), st)

/-- `IcebergWriter::close`: the data files with everything written. -/
def closeWriter (env : CompileEnv) (st : CompileState ε) : Except Error (List (List ε)) :=
  if env.closeOk then .ok st.written else .error (.anyhow "IcebergWriter::close failed")

/-- `compile_cf_pipeline` with its variables at the time of its return. The result of the iteration itself
is ignored. -/
def compileCfRun (fromReader : Bytes → Except Error ε) (store : RocksStore) (cfName : String)
    (env : CompileEnv) : Except Error (List (List ε)) × CompileState ε :=
  if !env.buildOk then (.error (.anyhow "DataFileWriterBuilder::build failed"), CompileState.start)
  else
    let st := (store.iterateCf cfName env.readErrorAt (compileRecord fromReader env) CompileState.start).2
    match st.ioErr with
    | some e => (.error e, st)
    | none =>
      if st.events.isEmpty then (closeWriter env st, st)
      else
        match flushEventsToWriter env st with
        | (.error e, st) => (.error e, st)
        | (.ok (), st) => (closeWriter env st, st)

/-- Compile a column family to data files. -/
def compileCfPipeline (fromReader : Bytes → Except Error ε) (store : RocksStore) (cfName : String)
    (env : CompileEnv) : Except Error (List (List ε)) :=
  (compileCfRun fromReader store cfName env).1

lemma compileCfPipeline_eq (fromReader : Bytes → Except Error ε) (store : RocksStore) (cfName : String)
    (env : CompileEnv) :
    compileCfPipeline fromReader store cfName env =
      if !env.buildOk then .error (.anyhow "DataFileWriterBuilder::build failed")
      else
        let st := (store.iterateCf cfName env.readErrorAt (compileRecord fromReader env) CompileState.start).2
        match st.ioErr with
        | some e => .error e
        | none =>
          if st.events.isEmpty then closeWriter env st
          else
            match flushEventsToWriter env st with
            | (.error e, _) => .error e
            | (.ok (), st) => closeWriter env st := by
  unfold compileCfPipeline compileCfRun
  split
  · rfl
  · dsimp only
    split
    · rfl
    · split
      · rfl
      · split
        · rfl
        · rfl

/-! ### One cycle -/

structure CommitRequest (δ : Type) where
  cfName : String
  tableDataFiles : List (String × List δ)

/-- What the set-up part of `do_flush` meets: the rotation with its clock reading, the outcome of
the creation and the random draw, or none when its task panics, and the calls of the catalog. -/
structure FlushEnv where
  rotation : Option (ℕ × Bool × ℕ)
  catalogOk : Bool
  contextOk : Bool

/-- The column families for which `do_flush` spawns a task. -/
def doFlush (store : RocksStore) (env : FlushEnv) : Except Error (List String) × RocksStore :=
  let (cfsToFlush, store) := store.getOrphanedCfs
  match env.rotation with
  | none => (.error .external, store)
  | some (ts, createOk, draw) =>
    match store.rotate ts createOk draw with
    | (.error e, store) => (.error e, store)
    | (.ok frozenCf, store) =>
      if !env.catalogOk then (.error .external, store)
      else if !env.contextOk then (.error (.anyhow "Failed to get table write context"), store)
      else (.ok (cfsToFlush ++ [frozenCf]), store)

/-- How the compilation in a task ends, and whether the commit channel is open afterwards. -/
inductive TaskOutcome (δ : Type)
  | compiled (result : Except Error (List δ)) (sendOk : Bool)
  | panicked

/-- The end of a flush task, with the requests sent so far. -/
def flushTask {δ : Type} (tableName : String) (store : RocksStore) (sent : List (CommitRequest δ))
    (cf : String) : TaskOutcome δ → Except Error Unit × RocksStore × List (CommitRequest δ)
  | .panicked => (.error (.anyhow "compile task panicked"), store, sent)
  | .compiled (.ok dataFiles) sendOk =>
    let req := { cfName := cf, tableDataFiles := [(tableName, dataFiles)] }
    if sendOk then (.ok (), store, sent ++ [req]) else (.ok (), store.retainFrozenCf cf, sent)
  | .compiled (.error _) _ => (.ok (), store.retainFrozenCf cf, sent)

/-- The tasks in the order in which they finish. -/
def finishTasks {δ : Type} (tableName : String) :
    RocksStore → List (CommitRequest δ) → List (String × TaskOutcome δ) → RocksStore × List (CommitRequest δ)
  | store, sent, [] => (store, sent)
  | store, sent, (cf, outcome) :: tasks =>
    let (_, store, sent) := flushTask tableName store sent cf outcome
    finishTasks tableName store sent tasks

/-- `jittered_interval`: the seconds until the next cycle, with `draw` the random number. -/
def jitteredInterval (flushIntervalSecs flushJitterSecs draw : ℕ) : ℕ :=
  let secs := min (flushIntervalSecs + draw) (2 ^ 64 - 1) - flushJitterSecs
  max secs 60

end MicewriterEngine
