import Mathlib.Data.Multiset.AddSub
import MicewriterEngine.Lib.Runs
import MicewriterEngine.Model.RocksdbStore

/-!
# The byte counters under concurrent calls

Any number of `append_batch`, `rotate` and `drop_frozen_cf` calls on one store, interleaved
at the granularity of their atomic and lock-protected steps. `append_batch` holds `db` for
reading from its write through both additions. `rotate` holds `active_cf` from its switch
through the insertion, and `drop_frozen_cf` holds `frozen_cf_sizes` through the subtraction.
-/

namespace MicewriterEngine

/-- A call of `append_batch` after it cloned the active name, after its write, and after the first
of its additions. -/
inductive AppendPhase
  | cloned (cf : String) (values : List Bytes)
  | written (batchBytes : ℕ)
  | counted (batchBytes : ℕ)

/-- The call holds `db` for reading. -/
def AppendPhase.InDb : AppendPhase → Prop
  | .cloned _ _ => False
  | _ => True

/-- A call of `rotate` after the switch, and after the swap of the byte counter. -/
inductive RotatePhase
  | switched (frozen : String)
  | swapped (frozen : String) (frozenBytes : ℕ)

/-- A call of `drop_frozen_cf` before the drop, after it, and after the removal of the size. -/
inductive DropPhase
  | called (name : String)
  | dropped (name : String)
  | removed (size : ℕ)

/-- The call holds `frozen_cf_sizes`. -/
def DropPhase.InSizes : DropPhase → Prop
  | .removed _ => True
  | _ => False

structure OpenCalls where
  store : RocksStore
  appends : Multiset AppendPhase
  /-- The rotation that holds `active_cf`. -/
  rotation : Option RotatePhase
  drops : Multiset DropPhase
  /-- Frozen column families that were not given to `drop_frozen_cf` yet. -/
  frozen : Multiset String

namespace OpenCalls

/-- No call is in progress. -/
def idle (s : RocksStore) (frozen : Multiset String) : OpenCalls := ⟨s, 0, none, 0, frozen⟩

/-- All column families with a size can be dropped. -/
def start (s : RocksStore) : OpenCalls := idle s s.frozenCfSizes.keys

end OpenCalls

inductive BytesEvent
  | clone (values : List Bytes)
  | write
  | writeFailed
  | addActive (batchBytes : ℕ)
  | addTotal (batchBytes : ℕ)
  | switch (ts : ℕ)
  | swap
  | insert (draw : ℕ)
  | callDrop (name : String)
  | dropCf (name : String)
  | dropCfFailed (name : String)
  | remove (name : String)
  | subtract (size : ℕ)

inductive BytesStep : OpenCalls → BytesEvent → OpenCalls → Prop
  | clone {p : OpenCalls} {values : List Bytes} (hvalues : values ≠ []) (hlock : p.rotation = none) :
      BytesStep p (.clone values) { p with appends := .cloned p.store.activeCf values ::ₘ p.appends }
  | write {p : OpenCalls} {cfName : String} {cf : ColumnFamily} {values : List Bytes} {rest : Multiset AppendPhase}
      (hcall : p.appends = .cloned cfName values ::ₘ rest) (hcf : p.store.db.cfHandle cfName = some cf) :
      BytesStep p .write
        { p with
          store := { p.store with
            counter := (values.foldl BatchLoop.putCf ⟨p.store.counter, 0, []⟩).counter
            db := p.store.db.writeCf cfName cf (values.foldl BatchLoop.putCf ⟨p.store.counter, 0, []⟩).batch }
          appends := .written (values.foldl BatchLoop.putCf ⟨p.store.counter, 0, []⟩).batchBytes ::ₘ rest }
  | writeFailed {p : OpenCalls} {cfName : String} {cf : ColumnFamily} {values : List Bytes}
      {rest : Multiset AppendPhase} (hcall : p.appends = .cloned cfName values ::ₘ rest)
      (hcf : p.store.db.cfHandle cfName = some cf) :
      BytesStep p .writeFailed
        { p with
          store := { p.store with counter := (values.foldl BatchLoop.putCf ⟨p.store.counter, 0, []⟩).counter }
          appends := rest }
  | writeMissing {p : OpenCalls} {cfName : String} {values : List Bytes} {rest : Multiset AppendPhase}
      (hcall : p.appends = .cloned cfName values ::ₘ rest) (hcf : p.store.db.cfHandle cfName = none) :
      BytesStep p .writeFailed { p with appends := rest }
  | addActive {p : OpenCalls} {batchBytes : ℕ} {rest : Multiset AppendPhase}
      (hcall : p.appends = .written batchBytes ::ₘ rest) :
      BytesStep p (.addActive batchBytes)
        { p with
          store := { p.store with activeCfBytes := u64 (p.store.activeCfBytes + batchBytes) }
          appends := .counted batchBytes ::ₘ rest }
  | addTotal {p : OpenCalls} {batchBytes : ℕ} {rest : Multiset AppendPhase}
      (hcall : p.appends = .counted batchBytes ::ₘ rest) :
      BytesStep p (.addTotal batchBytes)
        { p with
          store := { p.store with totalUnflushedBytes := u64 (p.store.totalUnflushedBytes + batchBytes) }
          appends := rest }
  /-- Create the next column family and make it the active one. -/
  | switch {p : OpenCalls} (ts : ℕ) {db : Db} (hlock : p.rotation = none) (hdb : ∀ call ∈ p.appends, ¬call.InDb)
      (hcreate : p.store.db.createCf (rotatedCf ts) = some db) :
      BytesStep p (.switch ts)
        { p with
          store := { p.store with db := db, activeCf := rotatedCf ts }
          rotation := some (.switched p.store.activeCf) }
  | swap {p : OpenCalls} {frozen : String} (hrotation : p.rotation = some (.switched frozen)) :
      BytesStep p .swap
        { p with
          store := { p.store with activeCfBytes := 0 }
          rotation := some (.swapped frozen p.store.activeCfBytes) }
  | insert {p : OpenCalls} {frozen : String} {frozenBytes : ℕ} (draw : ℕ)
      (hrotation : p.rotation = some (.swapped frozen frozenBytes)) (hsizes : ∀ call ∈ p.drops, ¬call.InSizes) :
      BytesStep p (.insert draw)
        { p with
          store := { p.store with
            frozenCfSizes := p.store.frozenCfSizes.insert frozen frozenBytes }.resetSizeLimit draw
          rotation := none
          frozen := frozen ::ₘ p.frozen }
  | callDrop {p : OpenCalls} {name : String} {rest : Multiset String} (hfrozen : p.frozen = name ::ₘ rest) :
      BytesStep p (.callDrop name) { p with drops := .called name ::ₘ p.drops, frozen := rest }
  | dropCf {p : OpenCalls} {name : String} {rest : Multiset DropPhase} {db : Db}
      (hcall : p.drops = .called name ::ₘ rest) (hdb : ∀ call ∈ p.appends, ¬call.InDb)
      (hdrop : p.store.db.dropCf name = some db) :
      BytesStep p (.dropCf name)
        { p with
          store := { p.store with db := db }
          drops := .dropped name ::ₘ rest }
  | dropCfFailed {p : OpenCalls} {name : String} {rest : Multiset DropPhase}
      (hcall : p.drops = .called name ::ₘ rest) :
      BytesStep p (.dropCfFailed name) { p with drops := rest }
  | remove {p : OpenCalls} {name : String} {size : ℕ} {rest : Multiset DropPhase}
      (hcall : p.drops = .dropped name ::ₘ rest) (hsizes : ∀ call ∈ rest, ¬call.InSizes)
      (hsize : p.store.frozenCfSizes.lookup name = some size) :
      BytesStep p (.remove name)
        { p with
          store := { p.store with frozenCfSizes := p.store.frozenCfSizes.erase name }
          drops := .removed size ::ₘ rest }
  | removeNone {p : OpenCalls} {name : String} {rest : Multiset DropPhase}
      (hcall : p.drops = .dropped name ::ₘ rest) (hsizes : ∀ call ∈ rest, ¬call.InSizes)
      (hsize : p.store.frozenCfSizes.lookup name = none) :
      BytesStep p (.remove name) { p with drops := rest }
  | subtract {p : OpenCalls} {size : ℕ} {rest : Multiset DropPhase} (hcall : p.drops = .removed size ::ₘ rest) :
      BytesStep p (.subtract size)
        { p with
          store := { p.store with
            totalUnflushedBytes := u64 (p.store.totalUnflushedBytes + (2 ^ 64 - size)) }
          drops := rest }

end MicewriterEngine
