import MicewriterEngine.Model.RocksDb

/-!
# Commits to the table

The retry loop around `fast_append`. A table is shown by the data files in it.
-/

namespace MicewriterEngine

/-- What a commit attempt meets: it is applied and reported, rejected, or applied while its reply
is lost and an error is reported. -/
inductive CommitReply
  | accepted
  | rejected
  | lost
  deriving DecidableEq

/-- What `commit_with_retry` meets at its attempts, counted from one. -/
structure CommitEnv where
  reloadOk : ℕ → Bool
  reply : ℕ → CommitReply

variable {δ : Type} [DecidableEq δ]

/-- `fast_append` with the commit of its transaction. It adds all files or none, and refuses files
that are in the table. -/
def fastAppend (files : List δ) (reply : CommitReply) (table : List δ) : Except Error Unit × List δ :=
  if ∃ f ∈ files, f ∈ table then (.error .external, table)
  else
    match reply with
    | .accepted => (.ok (), table ++ files)
    | .rejected => (.error .external, table)
    | .lost => (.error .external, table ++ files)

/-- The loop from an attempt on, with the number of attempts that may follow. Every retry reloads
the table, and an error of the reload ends the loop. -/
def commitFrom (env : CommitEnv) (files : List δ) : ℕ → ℕ → List δ → Except Error Unit × List δ
  | remaining, attempt, table =>
    if 1 < attempt ∧ env.reloadOk attempt = false then (.error .external, table)
    else
      match fastAppend files (env.reply attempt) table, remaining with
      | (.ok (), table), _ => (.ok (), table)
      | (.error _, table), remaining + 1 => commitFrom env files remaining (attempt + 1) table
      | (.error _, table), 0 => (.error (.anyhow "Iceberg commit failed after all retries"), table)

def maxAttempts : ℕ := 5

def commitWithRetry (env : CommitEnv) (files : List δ) (table : List δ) : Except Error Unit × List δ :=
  commitFrom env files (maxAttempts - 1) 1 table

/-- `tableOk` is the outcome of `get_or_create_table`. -/
def doCommitDataFiles (tableOk : Bool) (env : CommitEnv) (files : List δ) (table : List δ) :
    Except Error Unit × List δ :=
  if tableOk then commitWithRetry env files table else (.error .external, table)

def commitDataFiles (tableOk : Bool) (env : CommitEnv) (files : List δ) (table : List δ) :
    Except Error Unit × List δ :=
  if files.isEmpty then (.ok (), table) else doCommitDataFiles tableOk env files table

end MicewriterEngine
