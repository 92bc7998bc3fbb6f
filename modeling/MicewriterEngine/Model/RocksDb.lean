import Mathlib.Data.List.AList
import MicewriterEngine.Lib.SortedMap
import MicewriterEngine.Lib.BigEndian

/-!
# RocksDB as the engine uses it

A database is a finite map from column-family names to column families, and a column
family is a map from byte-string keys to values in key order. The calls of the client
library that the engine makes are total functions; where a call can fail for reasons
outside the model, its caller passes the outcome in.
-/

namespace MicewriterEngine

abbrev Bytes := List UInt8

/-- Arithmetic on `u64` in a release build wraps around. -/
def u64 (n : ℕ) : ℕ := n % 2 ^ 64

/-- The errors the engine passes on: its own messages, and those of the libraries it calls,
whose texts it never inspects. -/
inductive Error
  | anyhow (message : String)
  | rocksdb
  | external
  deriving DecidableEq, Repr

/-- A column family: the stored records in byte-lexicographic key order. -/
abbrev ColumnFamily := Lib.SortedMap Bytes Bytes

/-- The column families that exist in a RocksDB instance, by name. -/
abbrev Db := AList (fun _ : String => ColumnFamily)

namespace Db

def defaultCf : String := "default"

def cfHandle (db : Db) (name : String) : Option ColumnFamily := db.lookup name

/-- Creating a column family fails when the name exists. -/
def createCf (db : Db) (name : String) : Option Db :=
  if name ∈ db then none else some (db.insert name Lib.SortedMap.empty)

/-- Dropping fails for an unknown name and for the default column family. -/
def dropCf (db : Db) (name : String) : Option Db :=
  if name ∈ db ∧ name ≠ defaultCf then some (db.erase name) else none

/-- Apply a write batch to one column family. -/
def writeCf (db : Db) (name : String) (cf : ColumnFamily) (batch : List (Bytes × Bytes)) : Db :=
  db.insert name (cf.insertMany batch)

/-- `create_missing_column_families`: the names that do not exist yet start empty. -/
def createMissing (db : Db) (names : List String) : Db :=
  names.foldl (fun db name => if name ∈ db then db else db.insert name Lib.SortedMap.empty) db

/-- Open with `create_if_missing` and `create_missing_column_families`. All existing column
families have to be named; the client library names the default one by itself. -/
def openCfDescriptors (disk : Option Db) (names : List String) : Option Db :=
  match disk with
  | none => some (createMissing ∅ (defaultCf :: names))
  | some db =>
    if ∀ name ∈ db.keys, name ∈ defaultCf :: names then some (db.createMissing (defaultCf :: names))
    else none

/-- What `list_cf` may return: an error, or the existing names in any order. It has no other
answer than an error when there is no database. -/
def ListsCf (disk : Option Db) (answer : Option (List String)) : Prop :=
  ∀ names, answer = some names → ∃ db, disk = some db ∧ names.Perm db.keys

lemma lookup_createMissing (db : Db) (names : List String) (name : String) :
    (db.createMissing names).lookup name =
      if name ∈ names ∧ name ∉ db then some Lib.SortedMap.empty else db.lookup name := by
  induction names generalizing db with
  | nil => simp [createMissing]
  | cons head names ih =>
    rw [createMissing, List.foldl_cons, ← createMissing, ih]
    by_cases hhead : head ∈ db
    · simp only [hhead, ite_true, List.mem_cons]
      by_cases hname : name = head
      · subst hname
        simp [hhead]
      · simp [hname]
    · simp only [hhead, ite_false, List.mem_cons, AList.mem_insert]
      by_cases hname : name = head
      · subst hname
        simp [hhead]
      · simp [hname, AList.lookup_insert_ne hname]

lemma mem_createMissing (db : Db) (names : List String) (name : String) :
    name ∈ db.createMissing names ↔ name ∈ db ∨ name ∈ names := by
  rw [← AList.lookup_isSome, lookup_createMissing]
  split
  · rename_i h
    simp [h.1]
  · rename_i h
    rw [AList.lookup_isSome]
    tauto

theorem openCfDescriptors_some {disk : Option Db} {names : List String} {db : Db}
    (h : openCfDescriptors disk names = some db) :
    (∀ name, name ∈ db ↔ name ∈ defaultCf :: names) ∧
      ∀ name, db.lookup name =
        if name ∈ disk.getD ∅ then (disk.getD ∅).lookup name
        else if name ∈ defaultCf :: names then some Lib.SortedMap.empty else none := by
  have hlookup : ∀ (old : Db) name, (old.createMissing (defaultCf :: names)).lookup name =
      if name ∈ old then old.lookup name
      else if name ∈ defaultCf :: names then some Lib.SortedMap.empty else none := by
    intro old name
    rw [lookup_createMissing]
    by_cases hold : name ∈ old
    · simp [hold]
    · by_cases hname : name ∈ defaultCf :: names
      · simp [hold, hname]
      · simp [hold, hname, AList.lookup_eq_none.mpr hold]
  cases disk with
  | none =>
    cases h
    refine ⟨fun name => ?_, hlookup ∅⟩
    rw [mem_createMissing]
    simp
  | some old =>
    simp only [openCfDescriptors] at h
    split at h
    · rename_i hall
      cases h
      refine ⟨fun name => ?_, hlookup old⟩
      rw [mem_createMissing]
      exact ⟨fun hname => hname.elim (fun hold => hall name (AList.mem_keys.mp hold)) id, Or.inr⟩
    · cases h

end Db

end MicewriterEngine
