import MicewriterEngine.Model.Pod
import MicewriterEngine.Proofs.FifoLog
import MicewriterEngine.Proofs.PipelineRuns

/-!
# The pipeline over the RocksDB store

The steps of the pipeline that touch the store are calls of `RocksStore`. The store goes on
holding the values of the pipeline's records as long as the key counter does not wrap.
-/

namespace MicewriterEngine.Proofs
open Lib

variable {p p' : Pipeline} {e : PipelineEvent} {s : RocksStore}

lemma writeBatch_ok {name : String} {cf : ColumnFamily} (hcf : s.db.lookup name = some cf) (values : List Bytes) :
    ∃ full s', s.writeBatch name values true = (.ok full, s') ∧ Wrote s name cf values s' := by
  unfold RocksStore.writeBatch Db.cfHandle
  rw [hcf]
  exact ⟨_, _, rfl, rfl, rfl, rfl, rfl, rfl⟩

lemma rotate_ok {ts : ℕ} (hfresh : rotatedCf ts ∉ s.db) (draw : ℕ) :
    ∃ s', s.rotate ts true draw = (.ok s.activeCf, s') ∧ Rotated s ts s' := by
  unfold RocksStore.rotate
  simp only [ite_true, Db.createCf, if_neg hfresh]
  exact ⟨_, rfl, hfresh, rfl, rfl, rfl, rfl, rfl⟩

lemma dropFrozenCf_ok {name : String} (hname : name ∈ s.db) (hdefault : name ≠ Db.defaultCf) :
    ∃ s', s.dropFrozenCf name true = (.ok (), s') ∧ Dropped s name s' := by
  rcases dropFrozenCf_cases s name true with herror | hok
  · unfold RocksStore.dropFrozenCf at herror
    simp only [ite_true, Db.dropCf, if_pos (And.intro hname hdefault)] at herror
    split at herror <;> cases herror
  · exact hok

lemma writeBatch_missing {name : String} (hname : name ∉ s.db) (values : List Bytes) :
    (s.writeBatch name values true).2 = s := by
  unfold RocksStore.writeBatch Db.cfHandle
  rw [AList.lookup_eq_none.mpr hname]

/-! ### Representation -/

/-- The store holds the values of the pipeline's records, and the keys of every column family
that can still be written to are below the counter. -/
structure Represents (s : RocksStore) (p : Pipeline) : Prop where
  store : s.toLogStore = p.store.map Record.value
  keys : ∀ name cf, (name = p.store.activeCf ∨ ∃ values, (name, values) ∈ p.appends) →
    s.db.lookup name = some cf → KeysBelow cf s.counter
  tracked : Db.defaultCf ∉ trackedCfs p

lemma defaultCf_notMem_of_step (h : PipelineStep p e p') (hp : Db.defaultCf ∉ trackedCfs p) :
    Db.defaultCf ∉ trackedCfs p' := by
  rcases tracked_cases h with heq | ⟨ts, -, -, heq⟩ | ⟨cf, heq⟩
  · rwa [heq]
  · rw [heq, Multiset.mem_add, Multiset.mem_singleton, not_or]
    exact ⟨(rotatedCf_ne_defaultCf ts).symm, hp⟩
  · rw [heq, Multiset.mem_add, not_or] at hp
    exact hp.2

lemma map_value_tagFrom (tag : ℕ → RecordId) (first : ℕ) (values : List Bytes) :
    (tagFrom tag first values).map Record.value = values := by
  induction values generalizing first with
  | nil => rfl
  | cons v values ih => rw [tagFrom, List.map_cons, ih]

lemma map_value_newRecords (p : Pipeline) (values : List Bytes) : (p.newRecords values).map Record.value = values :=
  map_value_tagFrom _ _ _

namespace Represents

variable (hrep : Represents s p)
include hrep

lemma activeCf : s.activeCf = p.store.activeCf := congrArg LogStore.activeCf hrep.store

lemma mem_db {name : String} : name ∈ s.db ↔ p.store.logs name ≠ none := by
  have hlogs : s.db.logs name = (p.store.logs name).map (List.map Record.value) :=
    congrFun (congrArg LogStore.logs hrep.store) name
  rw [← AList.lookup_isSome, ← not_iff_not, not_not, Bool.not_eq_true, Option.isSome_eq_false_iff,
    Option.isNone_iff_eq_none, ← Option.map_eq_none_iff (f := List.map Record.value), ← hlogs, Db.logs,
    Option.map_eq_none_iff]

lemma of_same_store (h : PipelineStep p e p') (hstore : p'.store = p.store) (happends : p'.appends ≤ p.appends) :
    Represents s p' where
  store := hstore ▸ hrep.store
  keys name cf hname := by
    refine hrep.keys name cf ?_
    rw [hstore] at hname
    exact hname.imp_right (fun ⟨values, hmem⟩ => ⟨values, Multiset.mem_of_le happends hmem⟩)
  tracked := defaultCf_notMem_of_step h hrep.tracked

lemma write {cf : String} {values : List Bytes} {rest : Multiset (String × List Bytes)}
    (hcall : p.appends = (cf, values) ::ₘ rest) (hlookup : p.store.logs cf ≠ none)
    (hroom : s.counter + values.length < 2 ^ 64)
    (h : PipelineStep p (.write cf values) p') (hstore : p'.store = p.store.append cf (p.newRecords values))
    (happends : p'.appends = rest) :
    Represents (s.writeBatch cf values true).2 p' ∧
      (s.writeBatch cf values true).2.counter = s.counter + values.length := by
  obtain ⟨c, hc⟩ := Option.isSome_iff_exists.mp (AList.lookup_isSome.mpr (hrep.mem_db.mpr hlookup))
  obtain ⟨full, s', hs', hwrote⟩ := writeBatch_ok hc values
  have hbelow : KeysBelow c s.counter := by
    refine hrep.keys cf c (Or.inr ⟨values, ?_⟩) hc
    rw [hcall]
    exact Multiset.mem_cons_self _ _
  obtain ⟨hcounter, hbatch⟩ := foldl_putCf values ⟨s.counter, 0, []⟩ hroom
  have hs'counter : s'.counter = s.counter + values.length := hwrote.counter.trans hcounter
  rw [hs']
  refine ⟨⟨?_, ?_, defaultCf_notMem_of_step h hrep.tracked⟩, hs'counter⟩
  · rw [wrote_refines hwrote hc hbelow hroom, hstore, LogStore.map_append, map_value_newRecords, hrep.store]
  · intro name d hname hd
    rw [hstore, LogStore.append_activeCf, happends] at hname
    have hold : name = p.store.activeCf ∨ ∃ values, (name, values) ∈ p.appends := by
      refine hname.imp_right (fun ⟨values, hmem⟩ => ⟨values, ?_⟩)
      rw [hcall]
      exact Multiset.mem_cons_of_mem hmem
    rw [hwrote.db, hbatch, List.nil_append, Db.writeCf] at hd
    rw [hs'counter]
    by_cases heq : name = cf
    · subst heq
      rw [AList.lookup_insert, Option.some.injEq] at hd
      subst hd
      exact (insertMany_allot hbelow hroom).2
    · rw [AList.lookup_insert_ne heq] at hd
      exact (hrep.keys name d hold hd).mono (Nat.le_add_right _ _)

lemma rotate {ts : ℕ} (hfresh : p.store.logs (rotatedCf ts) = none) (draw : ℕ)
    (h : PipelineStep p (.rotate ts) p') (hstore : p'.store = p.store.rotate (rotatedCf ts))
    (happends : p'.appends = p.appends) :
    Represents (s.rotate ts true draw).2 p' ∧ (s.rotate ts true draw).2.counter = s.counter := by
  have habsent : rotatedCf ts ∉ s.db := fun hmem => hrep.mem_db.mp hmem hfresh
  obtain ⟨s', hs', hrotated⟩ := rotate_ok habsent draw
  rw [hs']
  refine ⟨⟨?_, ?_, defaultCf_notMem_of_step h hrep.tracked⟩, hrotated.counter⟩
  · rw [rotated_refines hrotated, hstore, LogStore.map_rotate, hrep.store]
  · intro name d hname hd
    rw [hrotated.db] at hd
    rw [hrotated.counter]
    by_cases heq : name = rotatedCf ts
    · subst heq
      rw [AList.lookup_insert, Option.some.injEq] at hd
      subst hd
      exact keysBelow_empty _
    · rw [AList.lookup_insert_ne heq] at hd
      rw [hstore, LogStore.rotate_activeCf, happends] at hname
      exact hrep.keys name d (Or.inr (hname.resolve_left heq)) hd

lemma drop {cf : String} (hexists : p.store.logs cf ≠ none) (hcf : cf ∈ trackedCfs p)
    (h : PipelineStep p (.dropped cf) p') (hstore : p'.store = p.store.drop cf) (happends : p'.appends = p.appends) :
    Represents (s.dropFrozenCf cf true).2 p' ∧ (s.dropFrozenCf cf true).2.counter = s.counter := by
  have hdefault : cf ≠ Db.defaultCf := fun heq => hrep.tracked (heq ▸ hcf)
  obtain ⟨s', hs', hdropped⟩ := dropFrozenCf_ok (hrep.mem_db.mpr hexists) hdefault
  rw [hs']
  refine ⟨⟨?_, ?_, defaultCf_notMem_of_step h hrep.tracked⟩, hdropped.counter⟩
  · rw [dropped_refines hdropped, hstore, LogStore.map_drop, hrep.store]
  · intro name d hname hd
    rw [hdropped.db] at hd
    rw [hdropped.counter]
    by_cases heq : name = cf
    · subst heq
      rw [AList.lookup_erase] at hd
      cases hd
    · rw [AList.lookup_erase_ne heq] at hd
      rw [hstore, LogStore.drop_activeCf, happends] at hname
      exact hrep.keys name d hname hd

lemma of_same_db {s' : RocksStore} (h : PipelineStep p e p') (hdb : s'.db = s.db) (hcounter : s'.counter = s.counter)
    (hstore : s'.toLogStore = p'.store.map Record.value) (hactive : p'.store.activeCf = p.store.activeCf)
    (happends : p'.appends = p.appends) : Represents s' p' where
  store := hstore
  keys := by
    rw [hdb, hcounter, hactive, happends]
    exact hrep.keys
  tracked := defaultCf_notMem_of_step h hrep.tracked

lemma drain (h : PipelineStep p .drain p') (hstore : p'.store = p.store.takeOrphans)
    (happends : p'.appends = p.appends) : Represents s.getOrphanedCfs.2 p' := by
  refine hrep.of_same_db h rfl rfl ?_ (by rw [hstore, LogStore.takeOrphans_activeCf]) happends
  have hlogs : s.getOrphanedCfs.2.toLogStore = s.toLogStore.takeOrphans := rfl
  rw [hlogs, hrep.store, hstore]
  rfl

lemma retain {cf : String} (h : PipelineStep p e p') (hstore : p'.store = p.store.retain cf)
    (happends : p'.appends = p.appends) : Represents (s.retainFrozenCf cf) p' := by
  refine hrep.of_same_db h rfl rfl ?_ (by rw [hstore, LogStore.retain_activeCf]) happends
  have hlogs : (s.retainFrozenCf cf).toLogStore = s.toLogStore.retain cf := rfl
  rw [hlogs, hrep.store, hstore]
  rfl

/-- Every step of the pipeline is a call that does the same to the store. -/
theorem step (draw : ℕ → ℕ) (h : PipelineStep p e p') (hroom : s.counter + p'.nextId < 2 ^ 64 + p.nextId) :
    Represents (storeCall draw s e) p' ∧ (storeCall draw s e).counter + p.nextId = s.counter + p'.nextId := by
  have hstep := h
  cases h with
  | @clone values hvalues =>
    refine ⟨⟨hrep.store, ?_, hrep.tracked⟩, rfl⟩
    intro name d hname hd
    refine hrep.keys name d ?_ hd
    rcases hname with hname | ⟨values', hmem⟩
    · exact Or.inl hname
    · rcases Multiset.mem_cons.mp hmem with heq | hold
      · exact Or.inl (congrArg Prod.fst heq)
      · exact Or.inr ⟨values', hold⟩
  | @write cf values rest hcall hlookup =>
    dsimp only at hroom
    obtain ⟨hwrite, hcounter⟩ := hrep.write hcall hlookup (by omega) hstep rfl rfl
    refine ⟨hwrite, ?_⟩
    dsimp only [storeCall]
    omega
  | @writeMissing cf values rest hcall hlookup =>
    have habsent : cf ∉ s.db := fun hmem => hrep.mem_db.mp hmem hlookup
    rw [storeCall, writeBatch_missing habsent]
    exact ⟨hrep.of_same_store hstep rfl (by rw [hcall]; exact Multiset.le_cons_self _ _), rfl⟩
  | drain => exact ⟨hrep.drain hstep rfl rfl, rfl⟩
  | rotate ts hcycle hfresh =>
    obtain ⟨hrotate, hcounter⟩ := hrep.rotate hfresh (draw ts) hstep rfl rfl
    exact ⟨hrotate, congrArg (· + p.nextId) hcounter⟩
  | retained htask => exact ⟨hrep.retain hstep rfl rfl, rfl⟩
  | kept hretaining => exact ⟨hrep.retain hstep rfl rfl, rfl⟩
  | @dropped cf cfs hdropping hexists =>
    have hcf : cf ∈ trackedCfs p := by
      rw [tracked_dropping hdropping]
      exact Multiset.mem_add.mpr (Or.inl (Multiset.mem_singleton_self _))
    obtain ⟨hdrop, hcounter⟩ := hrep.drop hexists hcf hstep rfl rfl
    exact ⟨hdrop, congrArg (· + p.nextId) hcounter⟩
  | _ => exact ⟨hrep.of_same_store hstep rfl le_rfl, rfl⟩

end Represents

lemma nextId_le_of_step (p : Pipeline) (e : PipelineEvent) (p' : Pipeline) (h : PipelineStep p e p') :
    p.nextId ≤ p'.nextId := by
  cases h with
  | write hcall hlookup => exact Nat.le_add_right _ _
  | _ => exact le_rfl

/-- The store that went through the calls of a run represents the pipeline at its end. -/
theorem Represents.run (hrep : Represents s p) (draw : ℕ → ℕ) {es : List PipelineEvent}
    (hrun : Run PipelineStep p es p') (hroom : s.counter + p'.nextId < 2 ^ 64 + p.nextId) :
    Represents (es.foldl (storeCall draw) s) p' := by
  induction hrun generalizing s with
  | nil => exact hrep
  | @cons p t p' e es hfirst hrest ih =>
    have hle := hrest.monotone nextId_le_of_step
    obtain ⟨hnext, hcounter⟩ := hrep.step draw hfirst (by omega)
    exact ih hnext (by omega)

lemma map_start (s : LogStore Bytes) : (Pipeline.start s).store.map Record.value = s := by
  have hlogs : ∀ name, ((s.logs name).map (tagFrom (.found name) 0)).map (List.map Record.value) = s.logs name := by
    intro name
    cases s.logs name with
    | none => rfl
    | some values => exact congrArg some (map_value_tagFrom _ _ _)
  unfold Pipeline.start LogStore.map
  congr 1
  funext name
  exact hlogs name

variable {disk : Option Db} {env : OpenEnv} {flushSizeBytes flushSizeJitterBytes : ℕ}

/-- After an open that found the last key, the store and its pipeline go together. -/
theorem start_represented (hnew : RocksStore.new disk env flushSizeBytes flushSizeJitterBytes = .ok s)
    (hlist : Db.ListsCf disk env.listCf)
    (hkeys : ∀ cf, s.db.lookup s.activeCf = some cf → KeysBelow cf s.counter) : Represents s (.start s.toLogStore) where
  store := (map_start s.toLogStore).symm
  keys name cf hname hcf := by
    rcases hname with rfl | ⟨values, hmem⟩
    · exact hkeys cf hcf
    · cases Multiset.notMem_zero _ hmem
  tracked := by
    obtain ⟨-, -, horphans, -, hactive, -⟩ := new_covers hnew hlist
    rw [tracked_start, Multiset.mem_add, Multiset.mem_singleton, Multiset.mem_coe]
    rintro (heq | hmem)
    · have hengine : IsEngineCf Db.defaultCf := heq ▸ hactive
      exact not_isEngineCf_defaultCf hengine
    · exact not_isEngineCf_defaultCf (horphans _ hmem).2

/-- The value of an acknowledged record is in the table or in RocksDB. -/
theorem acked_value_kept (hnew : RocksStore.new disk env flushSizeBytes flushSizeJitterBytes = .ok s)
    (hlist : Db.ListsCf disk env.listCf) (hkeys : ∀ cf, s.db.lookup s.activeCf = some cf → KeysBelow cf s.counter)
    {es : List PipelineEvent} (hrun : Run (Guarded PipelineStep NoLateWrite) (.start s.toLogStore) es p)
    (hroom : s.counter + p.nextId < 2 ^ 64) (draw : ℕ → ℕ) :
    ∀ r ∈ p.acked, r ∈ p.table ∨
      ∃ name cf, (es.foldl (storeCall draw) s).db.lookup name = some cf ∧ r.value ∈ cf.values := by
  intro r hr
  obtain ⟨-, hinv⟩ := pipeline_invariant hnew hlist (fun _ _ _ => id) hrun
  have hrep := (start_represented hnew hlist hkeys).run draw (hrun.mono (fun _ _ _ h => h.2))
    (Nat.lt_add_right _ hroom)
  rcases hinv.acked r hr with htable | hlog
  · exact Or.inl htable
  · right
    obtain ⟨name, log, hlog, hmem⟩ := mem_log_iff.mp hlog
    have hlogs := congrFun (congrArg LogStore.logs hrep.store) name
    simp only [RocksStore.toLogStore, Db.logs, LogStore.map, hlog, Option.map_some, Option.map_eq_some_iff] at hlogs
    obtain ⟨cf, hcf, hvalues⟩ := hlogs
    exact ⟨name, cf, hcf, hvalues ▸ List.mem_map_of_mem hmem⟩

end MicewriterEngine.Proofs
