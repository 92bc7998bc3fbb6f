import MicewriterEngine.Model.FlushEngine

/-!
# One batch of the committer

What `run_committer_loop` does with the requests that it has collected: it merges their
data files, commits each table, and then drops or retains all of their column families.
-/

namespace MicewriterEngine

/-- How the task of a drop ends: `drop_frozen_cf` returns, with RocksDB dropping the column family
or not, or the task panics, after or before RocksDB dropped it. -/
inductive DropOutcome
  | returned (dropOk : Bool)
  | panicked (dropped : Bool)
  deriving DecidableEq

variable {δ : Type}

/-- `all_data_files.entry(table).or_default().extend(dfs)`. -/
def addDataFiles (all : AList (fun _ : String => List δ)) (entry : String × List δ) :
    AList (fun _ : String => List δ) :=
  all.insert entry.1 ((all.lookup entry.1).getD [] ++ entry.2)

def mergeDataFiles (batch : List (CommitRequest δ)) : AList (fun _ : String => List δ) :=
  batch.foldl (fun all req => req.tableDataFiles.foldl addDataFiles all) ∅

/-- The commits of the tables: the calls that took effect, and whether none failed. -/
def commitTables (commitOk : String → Bool) : List (Σ _ : String, List δ) → List (String × List δ) × Bool
  | [] => ([], true)
  | ⟨tableName, dataFiles⟩ :: rest =>
    let (commits, fullyCommitted) := commitTables commitOk rest
    if dataFiles.isEmpty then (commits, fullyCommitted)
    else if commitOk tableName then ((tableName, dataFiles) :: commits, fullyCommitted)
    else (commits, false)

/-- One drop in a task of its own: whether it is reported as done. Only a panic is an error of the
task. An error of `drop_frozen_cf` is inside the result, which is not looked at. -/
def dropTask (s : RocksStore) (cf : String) : DropOutcome → Bool × RocksStore
  | .returned dropOk => (true, (s.dropFrozenCf cf dropOk).2)
  | .panicked false => (false, s)
  | .panicked true =>
    match s.db.dropCf cf with
    | some db => (false, { s with db := db })
    | none => (true, s)

/-- The drops of a batch, with the names that are reported as dropped. -/
def dropCfs (s : RocksStore) : List (String × DropOutcome) → List String × RocksStore
  | [] => ([], s)
  | (cf, outcome) :: rest =>
    let (done, s) := dropTask s cf outcome
    let (reported, s) := dropCfs s rest
    (if done then cf :: reported else reported, s)

structure BatchResult (δ : Type) where
  commits : List (String × List δ)
  reported : List String
  store : RocksStore

/-- The part of the loop after the batch is collected. Each request comes with what its drop meets. -/
def settleBatch (commitOk : String → Bool) (s : RocksStore) (batch : List (CommitRequest δ × DropOutcome)) :
    BatchResult δ :=
  let cfsToDrop := batch.map fun (req, outcome) => (req.cfName, outcome)
  let (commits, fullyCommitted) := commitTables commitOk (mergeDataFiles (batch.map Prod.fst)).entries
  if fullyCommitted then
    let (reported, s) := dropCfs s cfsToDrop
    ⟨commits, reported, s⟩
  else ⟨commits, [], cfsToDrop.foldl (fun s task => s.retainFrozenCf task.1) s⟩

end MicewriterEngine
