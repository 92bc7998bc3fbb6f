import MicewriterEngine.Lib.Runs
import MicewriterEngine.Model.RocksdbStore

/-!
# Concurrent calls of `append_batch`

Each ingest stream makes one call after the other, and the calls of different streams
overlap. A call clones the active name, takes the read lock of the database, draws one key
from the shared counter for each value, and writes its batch at once. `rotate` and
`drop_frozen_cf` need the write lock, so they wait for the calls that have the read lock.
The byte counts are left out.
-/

namespace MicewriterEngine
open Lib

/-- A call of `append_batch`: before it looks its column family up, and with the read lock. -/
inductive AppendCall
  | idle
  | named (cf : String) (values : List Bytes)
  | allotting (cf : String) (values : List Bytes) (batchBytes : ℕ) (batch : List (Bytes × Bytes)) (rest : List Bytes)

def AppendCall.HasReadLock : AppendCall → Prop
  | .allotting .. => True
  | _ => False

/-- The column family that a call is about to write to. -/
def AppendCall.cf : AppendCall → Option String
  | .idle => none
  | .named cf _ => some cf
  | .allotting cf .. => some cf

/-- A call is known by its stream and its position in the stream. -/
abbrev CallId (ι : Type) := ι × ℕ

variable {ι : Type} [DecidableEq ι]

structure Appends (ι : Type) where
  db : Db
  activeCf : String
  counter : ℕ
  calls : ι → AppendCall
  /-- The calls of each stream that returned, with their values and whether they returned `Ok`. -/
  finished : ι → List (List Bytes × Bool)
  /-- The values in the order of `fetch_add`, with their calls. -/
  drawn : List (CallId ι × Bytes)
  /-- The entries that were in a column family from the start. -/
  found : String → List (Bytes × Bytes)
  /-- The calls whose batch was written to the column family of that name. -/
  holds : String → List (CallId ι)

namespace Appends

/-- The store after `RocksStore::new`. -/
def start (ι : Type) (s : RocksStore) : Appends ι where
  db := s.db
  activeCf := s.activeCf
  counter := s.counter
  calls := fun _ => .idle
  finished := fun _ => []
  drawn := []
  found := fun name => ((s.db.lookup name).map SortedMap.entries).getD []
  holds := fun _ => []

/-- The current or next call of a stream. -/
def callId (a : Appends ι) (i : ι) : CallId ι := (i, (a.finished i).length)

/-- The current call of a stream returns. -/
def finish (a : Appends ι) (i : ι) (values : List Bytes) (ok : Bool) : Appends ι :=
  { a with
    calls := Function.update a.calls i .idle
    finished := Function.update a.finished i (a.finished i ++ [(values, ok)]) }

end Appends

inductive AppendEvent (ι : Type)
  | clone (i : ι) (values : List Bytes)
  | lookup (i : ι)
  | missing (i : ι)
  | fetchAdd (i : ι)
  | write (i : ι)
  | writeFailed (i : ι)
  | rotate (ts : ℕ)
  | drop (name : String)

inductive AppendStep : Appends ι → AppendEvent ι → Appends ι → Prop
  | clone {a : Appends ι} {i : ι} {values : List Bytes} (hcall : a.calls i = .idle) (hvalues : values ≠ []) :
      AppendStep a (.clone i values) { a with calls := Function.update a.calls i (.named a.activeCf values) }
  /-- The call takes the read lock and finds its column family. -/
  | lookup {a : Appends ι} {i : ι} {cf : String} {values : List Bytes} (hcall : a.calls i = .named cf values)
      (hcf : cf ∈ a.db) :
      AppendStep a (.lookup i)
        { a with calls := Function.update a.calls i (.allotting cf values 0 [] values) }
  | missing {a : Appends ι} {i : ι} {cf : String} {values : List Bytes} (hcall : a.calls i = .named cf values)
      (hcf : cf ∉ a.db) :
      AppendStep a (.missing i) (a.finish i values false)
  /-- One turn of the loop over the values: `fetch_add` on the counter and `put_cf`. -/
  | fetchAdd {a : Appends ι} {i : ι} {cf : String} {values : List Bytes} {batchBytes : ℕ}
      {batch : List (Bytes × Bytes)} {v : Bytes} {rest : List Bytes}
      (hcall : a.calls i = .allotting cf values batchBytes batch (v :: rest)) :
      AppendStep a (.fetchAdd i)
        { a with
          counter := (BatchLoop.putCf ⟨a.counter, batchBytes, batch⟩ v).counter
          calls := Function.update a.calls i
            (.allotting cf values (BatchLoop.putCf ⟨a.counter, batchBytes, batch⟩ v).batchBytes
              (BatchLoop.putCf ⟨a.counter, batchBytes, batch⟩ v).batch rest)
          drawn := a.drawn ++ [(a.callId i, v)] }
  | write {a : Appends ι} {i : ι} {cf : String} {values : List Bytes} {batchBytes : ℕ}
      {batch : List (Bytes × Bytes)} {c : ColumnFamily}
      (hcall : a.calls i = .allotting cf values batchBytes batch []) (hcf : a.db.lookup cf = some c) :
      AppendStep a (.write i)
        { a.finish i values true with
          db := a.db.writeCf cf c batch
          holds := Function.update a.holds cf (a.holds cf ++ [a.callId i]) }
  | writeFailed {a : Appends ι} {i : ι} {cf : String} {values : List Bytes} {batchBytes : ℕ}
      {batch : List (Bytes × Bytes)} (hcall : a.calls i = .allotting cf values batchBytes batch []) :
      AppendStep a (.writeFailed i) (a.finish i values false)
  | rotate {a : Appends ι} {db : Db} (ts : ℕ) (hlock : ∀ i, ¬(a.calls i).HasReadLock)
      (hcreate : a.db.createCf (rotatedCf ts) = some db) :
      AppendStep a (.rotate ts)
        { a with
          db := db
          activeCf := rotatedCf ts
          found := Function.update a.found (rotatedCf ts) []
          holds := Function.update a.holds (rotatedCf ts) [] }
  | drop {a : Appends ι} {db : Db} {name : String} (hlock : ∀ i, ¬(a.calls i).HasReadLock)
      (hdrop : a.db.dropCf name = some db) :
      AppendStep a (.drop name) { a with db := db }

end MicewriterEngine
