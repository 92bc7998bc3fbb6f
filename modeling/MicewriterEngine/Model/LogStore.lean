import Mathlib.Logic.Function.Basic
import MicewriterEngine.Model.RocksdbStore

/-!
# The store as a family of named logs

What the store is for: each column family is a log that only grows, one of them is
active, and a log lives until it is dropped. Keys, byte counts and size limits are
implementation details below this view.
-/

namespace MicewriterEngine

/-- Named logs, the active one, and those that wait for another flush. -/
structure LogStore (ν : Type*) where
  logs : String → Option (List ν)
  activeCf : String
  orphanedCfs : List String

namespace LogStore

variable {ν : Type*}

def append (s : LogStore ν) (name : String) (values : List ν) : LogStore ν :=
  { s with logs := Function.update s.logs name ((s.logs name).map (· ++ values)) }

def rotate (s : LogStore ν) (newCf : String) : LogStore ν :=
  { s with logs := Function.update s.logs newCf (some []), activeCf := newCf }

def drop (s : LogStore ν) (name : String) : LogStore ν :=
  { s with logs := Function.update s.logs name none }

def takeOrphans (s : LogStore ν) : LogStore ν := { s with orphanedCfs := [] }

def retain (s : LogStore ν) (name : String) : LogStore ν :=
  { s with orphanedCfs := s.orphanedCfs ++ [name] }

def map {μ : Type*} (f : ν → μ) (s : LogStore ν) : LogStore μ :=
  ⟨fun name => (s.logs name).map (List.map f), s.activeCf, s.orphanedCfs⟩

lemma map_append {μ : Type*} (f : ν → μ) (s : LogStore ν) (name : String) (values : List ν) :
    (s.append name values).map f = (s.map f).append name (values.map f) := by
  unfold append map
  congr 1
  funext other
  by_cases hother : other = name
  · subst hother
    simp only [Function.update_self, Option.map_map, Function.comp_def, List.map_append]
  · simp only [Function.update_of_ne hother]

lemma map_rotate {μ : Type*} (f : ν → μ) (s : LogStore ν) (newCf : String) :
    (s.rotate newCf).map f = (s.map f).rotate newCf := by
  unfold rotate map
  congr 1
  funext other
  by_cases hother : other = newCf
  · subst hother
    simp only [Function.update_self, Option.map_some, List.map_nil]
  · simp only [Function.update_of_ne hother]

lemma map_drop {μ : Type*} (f : ν → μ) (s : LogStore ν) (name : String) :
    (s.drop name).map f = (s.map f).drop name := by
  unfold drop map
  congr 1
  funext other
  by_cases hother : other = name
  · subst hother
    simp only [Function.update_self, Option.map_none]
  · simp only [Function.update_of_ne hother]

@[simp] lemma append_activeCf (s : LogStore ν) (name : String) (values : List ν) :
    (s.append name values).activeCf = s.activeCf := rfl

@[simp] lemma append_orphanedCfs (s : LogStore ν) (name : String) (values : List ν) :
    (s.append name values).orphanedCfs = s.orphanedCfs := rfl

@[simp] lemma rotate_activeCf (s : LogStore ν) (newCf : String) : (s.rotate newCf).activeCf = newCf := rfl

@[simp] lemma rotate_orphanedCfs (s : LogStore ν) (newCf : String) :
    (s.rotate newCf).orphanedCfs = s.orphanedCfs := rfl

@[simp] lemma drop_activeCf (s : LogStore ν) (name : String) : (s.drop name).activeCf = s.activeCf := rfl

@[simp] lemma drop_orphanedCfs (s : LogStore ν) (name : String) :
    (s.drop name).orphanedCfs = s.orphanedCfs := rfl

@[simp] lemma takeOrphans_logs (s : LogStore ν) : s.takeOrphans.logs = s.logs := rfl

@[simp] lemma takeOrphans_activeCf (s : LogStore ν) : s.takeOrphans.activeCf = s.activeCf := rfl

@[simp] lemma takeOrphans_orphanedCfs (s : LogStore ν) : s.takeOrphans.orphanedCfs = [] := rfl

@[simp] lemma retain_logs (s : LogStore ν) (name : String) : (s.retain name).logs = s.logs := rfl

@[simp] lemma retain_activeCf (s : LogStore ν) (name : String) : (s.retain name).activeCf = s.activeCf := rfl

@[simp] lemma retain_orphanedCfs (s : LogStore ν) (name : String) :
    (s.retain name).orphanedCfs = s.orphanedCfs ++ [name] := rfl

end LogStore

def Db.logs (db : Db) (name : String) : Option (List Bytes) := (db.lookup name).map (·.values)

lemma Db.logs_insert (db : Db) (name : String) (cf : ColumnFamily) :
    Db.logs (db.insert name cf) = Function.update db.logs name (some cf.values) := by
  funext other
  rw [Db.logs]
  by_cases hother : other = name
  · subst hother
    rw [AList.lookup_insert, Function.update_self, Option.map_some]
  · rw [AList.lookup_insert_ne hother, Function.update_of_ne hother, Db.logs]

lemma Db.logs_erase (db : Db) (name : String) :
    Db.logs (db.erase name) = Function.update db.logs name none := by
  funext other
  rw [Db.logs]
  by_cases hother : other = name
  · subst hother
    rw [AList.lookup_erase, Function.update_self, Option.map_none]
  · rw [AList.lookup_erase_ne hother, Function.update_of_ne hother, Db.logs]

lemma Db.logs_eq_none {db : Db} {name : String} (h : name ∉ db) : db.logs name = none := by
  rw [Db.logs, AList.lookup_eq_none.mpr h, Option.map_none]

lemma Db.logs_eq_some {db : Db} {name : String} {cf : ColumnFamily} (h : db.lookup name = some cf) :
    db.logs name = some cf.values := by
  rw [Db.logs, h, Option.map_some]

/-- The logs that a store holds. -/
def RocksStore.toLogStore (s : RocksStore) : LogStore Bytes where
  logs := s.db.logs
  activeCf := s.activeCf
  orphanedCfs := s.orphanedCfs

end MicewriterEngine
