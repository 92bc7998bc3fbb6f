import Mathlib.Data.Nat.Digits.Defs
import MicewriterEngine.Model.RocksDb

/-!
# The store: one active column family, rotated and drained

`RocksStore` and its operations. Every operation takes the outcomes it cannot decide
itself: the clock reading, the random draw, and whether a RocksDB call succeeds.
-/

namespace MicewriterEngine

def initialCf : String := "active"

def stripPlus : List Char → List Char
  | '+' :: rest => rest
  | s => s

/-- `str::parse::<u64>`: an optional plus sign, then decimal digits, in range. -/
def parseU64 (s : List Char) : Option ℕ :=
  if stripPlus s ≠ [] ∧ (stripPlus s).all Char.isDigit ∧
      Nat.ofDigitChars 10 (stripPlus s) 0 < 2 ^ 64 then
    some (Nat.ofDigitChars 10 (stripPlus s) 0)
  else none

/-- The timestamp in the name of a column family that the engine could have created. -/
def activeCfTimestamp (name : String) : Option ℕ :=
  if name = "active" then some 0
  else (name.toList.dropPrefix? "active_".toList).bind parseU64

def rotatedCf (ts : ℕ) : String := s!"active_{ts}"

/-- The engine could have created this column family. -/
def IsEngineCf (name : String) : Prop := (activeCfTimestamp name).isSome

instance decidableIsEngineCf (name : String) : Decidable (IsEngineCf name) := by
  unfold IsEngineCf
  infer_instance

lemma stripPlus_of_forall_isDigit {s : List Char} (h : ∀ c ∈ s, c.isDigit) : stripPlus s = s := by
  unfold stripPlus
  split
  · exact absurd (h '+' List.mem_cons_self) (by decide)
  · rfl

theorem parseU64_toDigits {n : ℕ} (hn : n < 2 ^ 64) : parseU64 (Nat.toDigits 10 n) = some n := by
  have hdigits : ∀ c ∈ Nat.toDigits 10 n, c.isDigit := fun c hc =>
    Nat.isDigit_of_mem_toDigits (by norm_num) le_rfl hc
  have hne : Nat.toDigits 10 n ≠ [] := Nat.toDigits_ne_nil
  rw [parseU64, stripPlus_of_forall_isDigit hdigits, Nat.ofDigitChars_ten_toDigits, if_pos]
  exact ⟨hne, List.all_eq_true.mpr hdigits, hn⟩

lemma toList_rotatedCf (ts : ℕ) : (rotatedCf ts).toList = "active_".toList ++ Nat.toDigits 10 ts := by
  have h : rotatedCf ts = "active_" ++ ts.repr := by simp [rotatedCf]; rfl
  rw [h, String.toList_append, Nat.toList_repr]

lemma rotatedCf_ne_initialCf (ts : ℕ) : rotatedCf ts ≠ initialCf := by
  intro h
  have hlist := congrArg String.toList h
  rw [toList_rotatedCf] at hlist
  simp [initialCf] at hlist

lemma rotatedCf_ne_defaultCf (ts : ℕ) : rotatedCf ts ≠ Db.defaultCf := by
  intro h
  have hlist := congrArg String.toList h
  rw [toList_rotatedCf] at hlist
  simp [Db.defaultCf] at hlist

lemma rotatedCf_injective : Function.Injective rotatedCf := by
  intro ts ts' h
  have hlist := congrArg String.toList h
  rw [toList_rotatedCf, toList_rotatedCf] at hlist
  have hdigits := congrArg (fun digits => Nat.ofDigitChars 10 digits 0) (List.append_cancel_left hlist)
  simpa only [Nat.ofDigitChars_ten_toDigits] using hdigits

/-- The name that `rotate` prints is recovered by `new`. -/
theorem activeCfTimestamp_rotatedCf {ts : ℕ} (hts : ts < 2 ^ 64) :
    activeCfTimestamp (rotatedCf ts) = some ts := by
  have hne : rotatedCf ts ≠ "active" := rotatedCf_ne_initialCf ts
  have hdrop : ("active_".toList ++ Nat.toDigits 10 ts).dropPrefix? "active_".toList =
      some (Nat.toDigits 10 ts) := List.dropPrefix?_append_of_beq _ (by simp)
  rw [activeCfTimestamp, if_neg hne, toList_rotatedCf, hdrop, Option.bind_some, parseU64_toDigits hts]

lemma isEngineCf_rotatedCf {ts : ℕ} (hts : ts < 2 ^ 64) : IsEngineCf (rotatedCf ts) := by
  rw [IsEngineCf, activeCfTimestamp_rotatedCf hts, Option.isSome_some]

lemma isEngineCf_initialCf : IsEngineCf initialCf := rfl

lemma not_isEngineCf_defaultCf : ¬IsEngineCf Db.defaultCf := by decide

/-! ### The store -/

structure RocksStore where
  db : Db
  activeCf : String
  counter : ℕ
  activeCfBytes : ℕ
  activeCfSizeLimit : ℕ
  flushSizeBytes : ℕ
  flushSizeJitterBytes : ℕ
  /-- Frozen column families that wait for another flush. -/
  orphanedCfs : List String
  totalUnflushedBytes : ℕ
  frozenCfSizes : AList (fun _ : String => ℕ)

/-- What `new` meets: the answer of `list_cf`, whether the open succeeds, whether the read of
the last key succeeds, and the random draw. -/
structure OpenEnv where
  listCf : Option (List String)
  openOk : Bool
  readOk : Bool
  draw : ℕ

/-- `IteratorMode::End`: the entry with the last key, or a read error. -/
def iteratorEnd (cf : ColumnFamily) (readOk : Bool) : Option (Except Error (Bytes × Bytes)) :=
  if readOk then cf.last?.map .ok else some (.error .rocksdb)

structure BatchLoop where
  counter : ℕ
  batchBytes : ℕ
  batch : List (Bytes × Bytes)

def BatchLoop.putCf (b : BatchLoop) (value : Bytes) : BatchLoop where
  counter := u64 (b.counter + 1)
  batchBytes := u64 (b.batchBytes + u64 value.length)
  batch := b.batch ++ [(Lib.beBytes 8 b.counter, value)]

/-- The largest number that a draw for a jitter may give, `jitter * 2`. -/
def jitterRange (jitter : ℕ) : ℕ := u64 (jitter * 2)

namespace RocksStore

/-- `reset_size_limit`, with `draw` the random number below or at twice the jitter. -/
def resetSizeLimit (s : RocksStore) (draw : ℕ) : RocksStore :=
  let newLimit := min (s.flushSizeBytes + draw) (2 ^ 64 - 1) - s.flushSizeJitterBytes
  { s with activeCfSizeLimit := max newLimit (1024 * 1024) }

/-- The engine's column families with their timestamps, oldest first. -/
def candidates (cfs : List String) : List (ℕ × String) :=
  ((cfs.filter (fun n => n != Db.defaultCf && (activeCfTimestamp n).isSome)).map
    (fun n => ((activeCfTimestamp n).getD 0, n))).insertionSort (fun a b => a.1 ≤ b.1)

/-- The active column family that `new` chooses. -/
def chooseActive (cfs : List String) : String :=
  match (candidates cfs).getLast? with
  | some (_, newest) => newest
  | none => initialCf

/-- The column families that `new` hands to the next flush. -/
def chooseOrphans (cfs : List String) : List String :=
  ((candidates cfs).take ((candidates cfs).length - 1)).map Prod.snd

/-- The last key of the active column family, zero when there is none to read. -/
def maxKey (db : Db) (activeName : String) (readOk : Bool) : ℕ :=
  match db.cfHandle activeName with
  | none => 0
  | some cf =>
    match iteratorEnd cf readOk with
    | some (.ok (k, _)) => if k.length = 8 then Lib.ofBeBytes k else 0
    | _ => 0

/-- Open or create the RocksDB instance. -/
def new (disk : Option Db) (env : OpenEnv) (flushSizeBytes flushSizeJitterBytes : ℕ) :
    Except Error RocksStore :=
  let cfs := env.listCf.getD [initialCf]
  match if env.openOk then Db.openCfDescriptors disk cfs else none with
  | none => .error .rocksdb
  | some db =>
    let activeName := chooseActive cfs
    let orphans := chooseOrphans cfs
    let maxId := maxKey db activeName env.readOk
    let totalUnflushed := u64 (orphans.length * flushSizeBytes)
    let frozenSizes := orphans.foldl (fun sizes orphan => sizes.insert orphan flushSizeBytes) ∅
    let store : RocksStore :=
      { db := db
        activeCf := activeName
        counter := u64 (maxId + 1)
        activeCfBytes := 0
        activeCfSizeLimit := 0
        flushSizeBytes := flushSizeBytes
        flushSizeJitterBytes := flushSizeJitterBytes
        orphanedCfs := orphans
        totalUnflushedBytes := totalUnflushed
        frozenCfSizes := frozenSizes }
    .ok (store.resetSizeLimit env.draw)

/-- The part of `append_batch` under the db read lock, for the column family whose name the
caller cloned from the active name. -/
def writeBatch (s : RocksStore) (cfName : String) (values : List Bytes) (writeOk : Bool) :
    Except Error Bool × RocksStore :=
  match s.db.cfHandle cfName with
  | none => (.error (.anyhow s!"CF '{cfName}' not found"), s)
  | some cf =>
    let loop := values.foldl BatchLoop.putCf ⟨s.counter, 0, []⟩
    let s := { s with counter := loop.counter }
    if writeOk then
      let newSize := u64 (s.activeCfBytes + loop.batchBytes)
      (.ok (s.activeCfSizeLimit ≤ newSize),
        { s with
          db := s.db.writeCf cfName cf loop.batch
          activeCfBytes := newSize
          totalUnflushedBytes := u64 (s.totalUnflushedBytes + loop.batchBytes) })
    else (.error .rocksdb, s)

def appendBatch (s : RocksStore) (values : List Bytes) (writeOk : Bool) :
    Except Error Bool × RocksStore :=
  if values.isEmpty then (.ok false, s) else s.writeBatch s.activeCf values writeOk

/-- Freeze the active column family and create the next one, at clock reading `ts`. -/
def rotate (s : RocksStore) (ts : ℕ) (createOk : Bool) (draw : ℕ) : Except Error String × RocksStore :=
  let frozen := s.activeCf
  let newCf := rotatedCf ts
  match if createOk then s.db.createCf newCf else none with
  | none => (.error .rocksdb, s)
  | some db =>
    let s := { s with
      db := db
      activeCf := newCf
      activeCfBytes := 0
      frozenCfSizes := s.frozenCfSizes.insert frozen s.activeCfBytes }
    (.ok frozen, s.resetSizeLimit draw)

/-- Take the list of column families that wait for another flush. -/
def getOrphanedCfs (s : RocksStore) : List String × RocksStore :=
  (s.orphanedCfs, { s with orphanedCfs := [] })

/-- Put a frozen column family back for the next flush. -/
def retainFrozenCf (s : RocksStore) (name : String) : RocksStore :=
  { s with orphanedCfs := s.orphanedCfs ++ [name] }

def retainedCfCount (s : RocksStore) : ℕ := s.orphanedCfs.length

/-- What the iterator from the first key yields: the stored values in key order, up to the
position of a read error if there is one. -/
def iteratorStart (cf : ColumnFamily) (readErrorAt : Option ℕ) : List (Except Error Bytes) :=
  match readErrorAt with
  | none => cf.values.map .ok
  | some i => (cf.values.take i).map .ok ++ [.error .rocksdb]

/-- The loop of `iterate_cf`. The callback `f` updates the state it captures also when it fails. -/
def iterateItems {σ : Type} (f : σ → Bytes → Except Error Unit × σ) :
    List (Except Error Bytes) → σ → Except Error Unit × σ
  | [], acc => (.ok (), acc)
  | .error e :: _, acc => (.error e, acc)
  | .ok v :: items, acc =>
    match f acc v with
    | (.error e, acc) => (.error e, acc)
    | (.ok (), acc) => iterateItems f items acc

/-- Apply `f` to all records of a column family. -/
def iterateCf {σ : Type} (s : RocksStore) (name : String) (readErrorAt : Option ℕ)
    (f : σ → Bytes → Except Error Unit × σ) (acc : σ) : Except Error Unit × σ :=
  match s.db.cfHandle name with
  | none => (.error (.anyhow s!"CF '{name}' not found"), acc)
  | some cf => iterateItems f (iteratorStart cf readErrorAt) acc

/-- Drop a frozen column family after its commit. When RocksDB refuses, the store is as before; that the
name has lost its handle by then is in `OpenStore`. -/
def dropFrozenCf (s : RocksStore) (name : String) (dropOk : Bool) : Except Error Unit × RocksStore :=
  match if dropOk then s.db.dropCf name else none with
  | none => (.error .rocksdb, s)
  | some db =>
    let s := { s with db := db }
    match s.frozenCfSizes.lookup name with
    | some size =>
      (.ok (), { s with
        frozenCfSizes := s.frozenCfSizes.erase name
        totalUnflushedBytes := u64 (s.totalUnflushedBytes + (2 ^ 64 - size)) })
    | none => (.ok (), s)

end RocksStore

end MicewriterEngine
