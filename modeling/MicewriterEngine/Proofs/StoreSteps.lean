import Mathlib.Tactic.Tauto
import MicewriterEngine.Model.RocksdbStore

/-!
# What each store operation can do

One statement for each operation of `RocksStore`, with its guards. The invariants of the
store are derived from these and do not unfold the operations again.
-/

namespace MicewriterEngine.Proofs
open RocksStore

lemma candidates_perm (cfs : List String) :
    ((candidates cfs).map Prod.snd).Perm (cfs.filter (fun n => IsEngineCf n)) := by
  have hfilter : cfs.filter (fun n => n != Db.defaultCf && (activeCfTimestamp n).isSome) =
      cfs.filter (fun n => IsEngineCf n) := by
    apply List.filter_congr
    intro n _
    by_cases hn : n = Db.defaultCf
    · subst hn
      decide
    · rw [bne_iff_ne.mpr hn, Bool.true_and, Bool.eq_iff_iff, decide_eq_true_eq]
      rfl
  unfold candidates
  refine ((List.perm_insertionSort _ _).map Prod.snd).trans ?_
  rw [List.map_map, hfilter]
  exact (List.map_id _).symm ▸ List.Perm.refl _

lemma candidates_timestamp {cfs : List String} {c : ℕ × String} (h : c ∈ candidates cfs) :
    c.1 = (activeCfTimestamp c.2).getD 0 := by
  unfold candidates at h
  rw [List.mem_insertionSort, List.mem_map] at h
  obtain ⟨n, -, rfl⟩ := h
  rfl

lemma candidates_sorted (cfs : List String) : (candidates cfs).Pairwise (fun a b => a.1 ≤ b.1) := by
  have : Std.Total (fun a b : ℕ × String => a.1 ≤ b.1) := ⟨fun a b => le_total a.1 b.1⟩
  have : IsTrans (ℕ × String) (fun a b => a.1 ≤ b.1) := ⟨fun a b c => le_trans⟩
  exact List.pairwise_insertionSort _ _

/-- With a candidate, `new` splits the engine's column families into the active one, whose
timestamp is largest, and the orphans. -/
theorem choose_of_exists {cfs : List String} (h : ∃ n ∈ cfs, IsEngineCf n) :
    (chooseOrphans cfs ++ [chooseActive cfs]).Perm (cfs.filter (fun n => IsEngineCf n)) ∧
      ∀ n ∈ cfs, IsEngineCf n →
        (activeCfTimestamp n).getD 0 ≤ (activeCfTimestamp (chooseActive cfs)).getD 0 := by
  obtain ⟨n₀, hn₀, hengine₀⟩ := h
  have hperm := candidates_perm cfs
  rcases List.eq_nil_or_concat (candidates cfs) with hnil | ⟨front, newest, hlast⟩
  · rw [hnil] at hperm
    have hmem : n₀ ∈ cfs.filter (fun n => IsEngineCf n) := by simp [hn₀, hengine₀]
    rw [← hperm.mem_iff] at hmem
    simp at hmem
  · rw [List.concat_eq_append] at hlast
    have hactive : chooseActive cfs = newest.2 := by
      unfold chooseActive
      rw [hlast, List.getLast?_concat]
    have horphans : chooseOrphans cfs = front.map Prod.snd := by
      unfold chooseOrphans
      rw [hlast, List.length_append, List.length_singleton, Nat.add_sub_cancel, List.take_left]
    constructor
    · rw [hactive, horphans, ← List.map_singleton, ← List.map_append, ← hlast]
      exact hperm
    · intro n hn hengine
      have hmem : n ∈ (candidates cfs).map Prod.snd := hperm.mem_iff.mpr (by simp [hn, hengine])
      obtain ⟨c, hc, rfl⟩ := List.mem_map.mp hmem
      have hsorted := candidates_sorted cfs
      rw [hlast, List.pairwise_append] at hsorted
      rw [hactive, ← candidates_timestamp hc,
        ← candidates_timestamp (c := newest) (by rw [hlast]; simp)]
      rw [hlast, List.mem_append, List.mem_singleton] at hc
      rcases hc with hc | rfl
      · exact hsorted.2.2 c hc newest (by simp)
      · exact le_rfl

/-- Without a candidate, `new` falls back to the initial name. -/
theorem choose_of_not_exists {cfs : List String} (h : ¬∃ n ∈ cfs, IsEngineCf n) :
    chooseActive cfs = initialCf ∧ chooseOrphans cfs = [] := by
  have hnil : candidates cfs = [] := by
    have hfilter : cfs.filter (fun n => IsEngineCf n) = [] := by
      rw [List.filter_eq_nil_iff]
      exact fun n hn hengine => h ⟨n, hn, of_decide_eq_true hengine⟩
    have hperm := candidates_perm cfs
    rw [hfilter] at hperm
    exact List.map_eq_nil_iff.mp hperm.eq_nil
  constructor
  · rw [chooseActive, hnil]
    rfl
  · rw [chooseOrphans, hnil]
    rfl

lemma mem_foldl_insert_sizes (orphans : List String) (size : ℕ) (sizes : AList (fun _ : String => ℕ))
    (name : String) :
    name ∈ orphans.foldl (fun sizes orphan => sizes.insert orphan size) sizes ↔
      name ∈ orphans ∨ name ∈ sizes := by
  induction orphans generalizing sizes with
  | nil => simp
  | cons orphan orphans ih =>
    rw [List.foldl_cons, ih, AList.mem_insert, List.mem_cons]
    tauto

/-- A successful `new`, field by field. -/
theorem new_ok {disk : Option Db} {env : OpenEnv} {flushSizeBytes flushSizeJitterBytes : ℕ}
    {s : RocksStore} (h : new disk env flushSizeBytes flushSizeJitterBytes = .ok s) :
    Db.openCfDescriptors disk (env.listCf.getD [initialCf]) = some s.db ∧
      s.activeCf = chooseActive (env.listCf.getD [initialCf]) ∧
      s.orphanedCfs = chooseOrphans (env.listCf.getD [initialCf]) ∧
      s.counter = u64 (maxKey s.db s.activeCf env.readOk + 1) ∧
      ∀ name, name ∈ s.frozenCfSizes ↔ name ∈ s.orphanedCfs := by
  unfold new at h
  dsimp only at h
  split at h
  · cases h
  · rename_i db hopen
    cases h
    have hdb : Db.openCfDescriptors disk (env.listCf.getD [initialCf]) = some db := by
      split at hopen
      · exact hopen
      · cases hopen
    refine ⟨hdb, rfl, rfl, rfl, fun name => ?_⟩
    simp only [resetSizeLimit, mem_foldl_insert_sizes, AList.notMem_empty, or_false]

/-- After a successful `new` the active column family and the orphans are the engine's column
families, each once, unless none exists. -/
theorem new_covers {disk : Option Db} {env : OpenEnv} {flushSizeBytes flushSizeJitterBytes : ℕ}
    {s : RocksStore} (h : new disk env flushSizeBytes flushSizeJitterBytes = .ok s)
    (hlist : Db.ListsCf disk env.listCf) :
    (s.orphanedCfs ++ [s.activeCf]).Nodup ∧
      (∀ name ∈ s.db, IsEngineCf name → name = s.activeCf ∨ name ∈ s.orphanedCfs) ∧
      (∀ name ∈ s.orphanedCfs, name ∈ s.db ∧ IsEngineCf name) ∧
      ((∃ name ∈ s.db, IsEngineCf name) → s.activeCf ∈ s.db) ∧
      IsEngineCf s.activeCf ∧
      ∀ name ∈ s.db, IsEngineCf name →
        (activeCfTimestamp name).getD 0 ≤ (activeCfTimestamp s.activeCf).getD 0 := by
  obtain ⟨hopen, hactive, horphans, -, -⟩ := new_ok h
  have hmem := (Db.openCfDescriptors_some hopen).1
  set cfs := env.listCf.getD [initialCf] with hcfs
  have hnodup : cfs.Nodup := by
    rw [hcfs]
    cases hanswer : env.listCf with
    | none => simp
    | some names =>
      obtain ⟨db, -, hperm⟩ := hlist names hanswer
      exact hperm.nodup_iff.mpr db.keys_nodup
  have hdb : ∀ name, IsEngineCf name → (name ∈ s.db ↔ name ∈ cfs) := by
    intro name hengine
    have hne : name ≠ Db.defaultCf := fun heq => not_isEngineCf_defaultCf (heq ▸ hengine)
    rw [hmem name, List.mem_cons]
    tauto
  rw [hactive, horphans]
  by_cases hex : ∃ n ∈ cfs, IsEngineCf n
  · obtain ⟨hperm, hmax⟩ := choose_of_exists hex
    have hiff : ∀ name, name ∈ chooseOrphans cfs ++ [chooseActive cfs] ↔ name ∈ cfs ∧ IsEngineCf name := by
      intro name
      rw [hperm.mem_iff, List.mem_filter, decide_eq_true_eq]
    have hchosen := (hiff (chooseActive cfs)).mp (by simp)
    refine ⟨hperm.nodup_iff.mpr (hnodup.filter _), ?_, ?_, ?_, hchosen.2, ?_⟩
    · intro name hname hengine
      have h := (hiff name).mpr ⟨(hdb name hengine).mp hname, hengine⟩
      rw [List.mem_append, List.mem_singleton] at h
      exact h.symm
    · intro name hname
      have h := (hiff name).mp (List.mem_append_left _ hname)
      exact ⟨(hdb name h.2).mpr h.1, h.2⟩
    · exact fun _ => (hdb _ hchosen.2).mpr hchosen.1
    · exact fun name hname hengine => hmax name ((hdb name hengine).mp hname) hengine
  · obtain ⟨hchosen, hnone⟩ := choose_of_not_exists hex
    have habsent : ∀ name ∈ s.db, ¬IsEngineCf name := fun name hname hengine =>
      hex ⟨name, (hdb name hengine).mp hname, hengine⟩
    rw [hchosen, hnone]
    refine ⟨by simp, ?_, by simp, ?_, isEngineCf_initialCf, ?_⟩
    · exact fun name hname hengine => (habsent name hname hengine).elim
    · exact fun ⟨name, hname, hengine⟩ => (habsent name hname hengine).elim
    · exact fun name hname hengine => (habsent name hname hengine).elim

lemma new_active_exists {disk : Option Db} {env : OpenEnv} {flushSizeBytes flushSizeJitterBytes : ℕ}
    {s : RocksStore} (h : new disk env flushSizeBytes flushSizeJitterBytes = .ok s)
    (hlist : Db.ListsCf disk env.listCf) : s.activeCf ∈ s.db ∨ s.activeCf = initialCf := by
  obtain ⟨hopen, hactive, -, -, -⟩ := new_ok h
  have hmem := (Db.openCfDescriptors_some hopen).1
  by_cases hex : ∃ name ∈ env.listCf.getD [initialCf], IsEngineCf name
  · obtain ⟨name, hname, hengine⟩ := hex
    exact Or.inl ((new_covers h hlist).2.2.2.1 ⟨name, (hmem name).mpr (List.mem_cons_of_mem _ hname), hengine⟩)
  · exact Or.inr (hactive.trans (choose_of_not_exists hex).1)

/-- The store after the first open of a missing database. -/
def freshStore : RocksStore where
  db := Db.createMissing ∅ [Db.defaultCf, initialCf]
  activeCf := initialCf
  counter := 1
  activeCfBytes := 0
  activeCfSizeLimit := 1024 * 1024
  flushSizeBytes := 0
  flushSizeJitterBytes := 0
  orphanedCfs := []
  totalUnflushedBytes := 0
  frozenCfSizes := ∅

lemma new_freshStore : RocksStore.new none ⟨none, true, true, 0⟩ 0 0 = .ok freshStore := rfl

lemma listsCf_none (disk : Option Db) : Db.ListsCf disk none := fun _ h => nomatch h

lemma listsCf_keys {db : Db} {names : List String} (h : db.keys = names) : Db.ListsCf (some db) (some names) := by
  rintro _ ⟨⟩
  exact ⟨db, rfl, h ▸ List.Perm.refl _⟩

lemma mem_dropCf {db db' : Db} {cf : String} (h : db.dropCf cf = some db') (other : String) :
    cf ≠ Db.defaultCf ∧ (other ∈ db' ↔ other ∈ db ∧ other ≠ cf) := by
  unfold Db.dropCf at h
  split at h
  · rename_i hcf
    cases h
    rw [AList.mem_erase]
    exact ⟨hcf.2, And.comm⟩
  · cases h

/-- The effect of a successful `rotate`. -/
structure Rotated (s : RocksStore) (ts : ℕ) (s' : RocksStore) : Prop where
  fresh : rotatedCf ts ∉ s.db
  db : s'.db = s.db.insert (rotatedCf ts) Lib.SortedMap.empty
  activeCf : s'.activeCf = rotatedCf ts
  counter : s'.counter = s.counter
  orphanedCfs : s'.orphanedCfs = s.orphanedCfs
  frozenCfSizes : s'.frozenCfSizes = s.frozenCfSizes.insert s.activeCf s.activeCfBytes

theorem rotate_cases (s : RocksStore) (ts : ℕ) (createOk : Bool) (draw : ℕ) :
    s.rotate ts createOk draw = (.error .rocksdb, s) ∨
      ∃ s', s.rotate ts createOk draw = (.ok s.activeCf, s') ∧ Rotated s ts s' := by
  unfold rotate
  dsimp only
  split
  · exact Or.inl rfl
  · rename_i db hcreate
    refine Or.inr ⟨_, rfl, ?_⟩
    cases createOk with
    | false => cases hcreate
    | true =>
      simp only [ite_true, Db.createCf] at hcreate
      split at hcreate
      · cases hcreate
      · rename_i hfresh
        cases hcreate
        exact ⟨hfresh, rfl, rfl, rfl, rfl, rfl⟩

/-- The effect of a successful `drop_frozen_cf`. -/
structure Dropped (s : RocksStore) (name : String) (s' : RocksStore) : Prop where
  exist : name ∈ s.db
  db : s'.db = s.db.erase name
  activeCf : s'.activeCf = s.activeCf
  counter : s'.counter = s.counter
  orphanedCfs : s'.orphanedCfs = s.orphanedCfs
  frozenCfSizes : s'.frozenCfSizes = s.frozenCfSizes.erase name

theorem dropFrozenCf_cases (s : RocksStore) (name : String) (dropOk : Bool) :
    s.dropFrozenCf name dropOk = (.error .rocksdb, s) ∨
      ∃ s', s.dropFrozenCf name dropOk = (.ok (), s') ∧ Dropped s name s' := by
  unfold dropFrozenCf
  split
  · exact Or.inl rfl
  · rename_i db hdrop
    have hcf : name ∈ s.db ∧ db = s.db.erase name := by
      cases dropOk with
      | false => cases hdrop
      | true =>
        simp only [ite_true, Db.dropCf] at hdrop
        split at hdrop
        · rename_i hname
          cases hdrop
          exact ⟨hname.1, rfl⟩
        · cases hdrop
    obtain ⟨hname, rfl⟩ := hcf
    dsimp only
    split
    · exact Or.inr ⟨_, rfl, hname, rfl, rfl, rfl, rfl, rfl⟩
    · rename_i hsize
      have habsent : name ∉ s.frozenCfSizes := AList.lookup_eq_none.mp hsize
      have herase : s.frozenCfSizes.erase name = s.frozenCfSizes := by
        apply AList.ext
        exact List.kerase_of_notMem_keys (fun hmem => habsent (AList.mem_keys.mpr hmem))
      exact Or.inr ⟨_, rfl, hname, rfl, rfl, rfl, rfl, herase.symm⟩

/-- The keys and values of a batch of `values` whose first key is `first`. -/
def allot (first : ℕ) (values : List Bytes) : List (Bytes × Bytes) :=
  ((List.range' first values.length).map (Lib.beBytes 8)).zip values

lemma allot_fst (first : ℕ) (values : List Bytes) :
    (allot first values).map Prod.fst = (List.range' first values.length).map (Lib.beBytes 8) := by
  unfold allot
  rw [List.map_fst_zip]
  simp

lemma allot_snd (first : ℕ) (values : List Bytes) : (allot first values).map Prod.snd = values := by
  unfold allot
  rw [List.map_snd_zip]
  simp

lemma beBytes_eight_eq_iff {a b : ℕ} : Lib.beBytes 8 a = Lib.beBytes 8 b ↔ u64 a = u64 b :=
  Lib.beBytes_eq_iff

lemma u64_u64 (n : ℕ) : u64 (u64 n) = u64 n := Nat.mod_mod _ _

/-- The loop of `append_batch` allots consecutive keys, round the end of `u64`. -/
lemma foldl_putCf_u64 (values : List Bytes) (first bytes : ℕ) (batch : List (Bytes × Bytes)) :
    (values.foldl BatchLoop.putCf ⟨u64 first, bytes, batch⟩).counter = u64 (first + values.length) ∧
      (values.foldl BatchLoop.putCf ⟨u64 first, bytes, batch⟩).batch = batch ++ allot first values := by
  induction values generalizing first bytes batch with
  | nil => simp [allot]
  | cons v values ih =>
    have hput : BatchLoop.putCf ⟨u64 first, bytes, batch⟩ v =
        ⟨u64 (first + 1), u64 (bytes + u64 v.length), batch ++ [(Lib.beBytes 8 first, v)]⟩ := by
      have hkey : Lib.beBytes 8 (u64 first) = Lib.beBytes 8 first := beBytes_eight_eq_iff.mpr (u64_u64 first)
      have hnext : u64 (u64 first + 1) = u64 (first + 1) := Nat.mod_add_mod first _ 1
      simp only [BatchLoop.putCf, hkey, hnext]
    obtain ⟨hcounter, hbatch⟩ := ih (first + 1) (u64 (bytes + u64 v.length)) (batch ++ [(Lib.beBytes 8 first, v)])
    rw [List.foldl_cons, hput, hcounter, hbatch, List.length_cons, List.append_assoc]
    exact ⟨by rw [Nat.add_right_comm, Nat.add_assoc], by simp [allot, List.range'_succ]⟩

/-- As long as the counter does not wrap it is the number of the next key. -/
lemma foldl_putCf (values : List Bytes) (b : BatchLoop) (h : b.counter + values.length < 2 ^ 64) :
    (values.foldl BatchLoop.putCf b).counter = b.counter + values.length ∧
      (values.foldl BatchLoop.putCf b).batch = b.batch ++ allot b.counter values := by
  have hcounter : u64 b.counter = b.counter := Nat.mod_eq_of_lt (by omega)
  have hsum : u64 (b.counter + values.length) = b.counter + values.length := Nat.mod_eq_of_lt h
  have hfold := foldl_putCf_u64 values b.counter b.batchBytes b.batch
  rw [hcounter, hsum] at hfold
  exact hfold

/-- The effect of a batch write that RocksDB applied. -/
structure Wrote (s : RocksStore) (name : String) (cf : ColumnFamily) (values : List Bytes)
    (s' : RocksStore) : Prop where
  db : s'.db = s.db.writeCf name cf (values.foldl BatchLoop.putCf ⟨s.counter, 0, []⟩).batch
  activeCf : s'.activeCf = s.activeCf
  counter : s'.counter = (values.foldl BatchLoop.putCf ⟨s.counter, 0, []⟩).counter
  orphanedCfs : s'.orphanedCfs = s.orphanedCfs
  frozenCfSizes : s'.frozenCfSizes = s.frozenCfSizes

/-- The effect of a call that only allotted keys. -/
structure Skipped (s : RocksStore) (values : List Bytes) (s' : RocksStore) : Prop where
  db : s'.db = s.db
  activeCf : s'.activeCf = s.activeCf
  counter : s'.counter = (values.foldl BatchLoop.putCf ⟨s.counter, 0, []⟩).counter
  orphanedCfs : s'.orphanedCfs = s.orphanedCfs
  frozenCfSizes : s'.frozenCfSizes = s.frozenCfSizes

theorem writeBatch_cases (s : RocksStore) (name : String) (values : List Bytes) (writeOk : Bool) :
    (name ∉ s.db ∧ ∃ e, s.writeBatch name values writeOk = (.error e, s)) ∨
      (name ∈ s.db ∧ ∃ s', s.writeBatch name values writeOk = (.error .rocksdb, s') ∧ Skipped s values s') ∨
      ∃ cf full s', s.db.lookup name = some cf ∧ s.writeBatch name values writeOk = (.ok full, s') ∧
        Wrote s name cf values s' := by
  unfold writeBatch Db.cfHandle
  cases hcf : s.db.lookup name with
  | none => exact Or.inl ⟨AList.lookup_eq_none.mp hcf, _, rfl⟩
  | some cf =>
    have hname : name ∈ s.db := by
      rw [← AList.lookup_isSome, hcf, Option.isSome_some]
    cases writeOk with
    | false => exact Or.inr (Or.inl ⟨hname, _, rfl, rfl, rfl, rfl, rfl, rfl⟩)
    | true => exact Or.inr (Or.inr ⟨cf, _, _, rfl, rfl, rfl, rfl, rfl, rfl, rfl⟩)

theorem appendBatch_cases (s : RocksStore) (values : List Bytes) (writeOk : Bool) :
    (values = [] ∧ s.appendBatch values writeOk = (.ok false, s)) ∨
      (s.activeCf ∉ s.db ∧ ∃ e, s.appendBatch values writeOk = (.error e, s)) ∨
      (s.activeCf ∈ s.db ∧
        ∃ s', s.appendBatch values writeOk = (.error .rocksdb, s') ∧ Skipped s values s') ∨
      ∃ cf full s', s.db.lookup s.activeCf = some cf ∧ s.appendBatch values writeOk = (.ok full, s') ∧
        Wrote s s.activeCf cf values s' := by
  unfold appendBatch
  split
  · rename_i hempty
    exact Or.inl ⟨List.isEmpty_iff.mp hempty, rfl⟩
  · exact Or.inr (writeBatch_cases s s.activeCf values writeOk)

end MicewriterEngine.Proofs
