import Mathlib.Data.Set.Finite.Basic
import MicewriterEngine.Proofs.FifoLog

/-!
# The counter after a reopen

`RocksStore::new` starts the key counter above the last key of the column family that it
makes active. When it cannot read that key it starts at one. The keys that later appends
take are above all stored ones until the counter comes round the end of `u64`.
-/

namespace MicewriterEngine.Proofs
open Lib RocksStore

def afterAll (s : RocksStore) (ops : List Op) : RocksStore := ops.foldl (fun s op => (s.perform op).2) s

/-- How many values are appended. -/
def valueCount : List Op → ℕ
  | [] => 0
  | .appendBatch values _ :: ops => values.length + valueCount ops
  | _ :: ops => valueCount ops

/-- The counter is above every key of the active column family, and while at most `n` values are
appended no append replaces a record, whatever else is called in between. -/
structure SetsUpNoOverwrite (s : RocksStore) (n : ℕ) : Prop where
  above : ∀ cf, s.db.lookup s.activeCf = some cf → ∀ k ∈ cf.keys, ofBeBytes k < s.counter
  kept : ∀ ops values writeOk, valueCount ops + values.length ≤ n →
    ∀ name cf, (afterAll s ops).db.lookup name = some cf → ∀ e ∈ cf.entries,
      ∃ cf', ((afterAll s ops).appendBatch values writeOk).2.db.lookup name = some cf' ∧ e ∈ cf'.entries

/-- The keys in the column family that `new` chooses. -/
def storedKeys (disk : Option Db) (env : OpenEnv) : List Bytes :=
  (((disk.getD ∅).lookup (chooseActive (env.listCf.getD [initialCf]))).map SortedMap.keys).getD []

/-- The last key can be read, unless there is only the key zero, and the counter does not come round
to a stored key or to its own start while `n` values are appended. -/
structure CounterFits (disk : Option Db) (env : OpenEnv) (n : ℕ) : Prop where
  read : env.readOk = true ∨ ∀ k ∈ storedKeys disk env, ofBeBytes k = 0
  stored : ∀ k ∈ storedKeys disk env, ∀ last ∈ storedKeys disk env,
    ofBeBytes last + 1 + n ≤ 2 ^ 64 + ofBeBytes k
  own : n ≤ 2 ^ 64

variable {s t : RocksStore} {stored : List Bytes} {first taken n : ℕ}

/-- After `taken` keys from `first` on: the active column family has some of these, and stored ones. -/
structure Taken (stored : List Bytes) (first taken : ℕ) (t : RocksStore) : Prop where
  counter : t.counter = u64 (first + taken)
  keys : ∀ cf, t.db.lookup t.activeCf = some cf → ∀ k ∈ cf.keys,
    k ∈ stored ∨ ∃ i < taken, k = beBytes 8 (first + i)

lemma foldl_putCf_counter (values : List Bytes) (h : t.counter = u64 (first + taken)) :
    (values.foldl BatchLoop.putCf ⟨t.counter, 0, []⟩).counter = u64 (first + (taken + values.length)) ∧
      (values.foldl BatchLoop.putCf ⟨t.counter, 0, []⟩).batch = allot (first + taken) values := by
  rw [h, ← Nat.add_assoc]
  exact foldl_putCf_u64 values (first + taken) 0 []

lemma Taken.appendBatch (h : Taken stored first taken t) (values : List Bytes) (writeOk : Bool) :
    ∃ more ≤ values.length, Taken stored first (taken + more) (t.appendBatch values writeOk).2 := by
  obtain ⟨hcounter, hbatch⟩ := foldl_putCf_counter values h.counter
  rcases appendBatch_cases t values writeOk with
    ⟨-, h₀⟩ | ⟨-, e, he⟩ | ⟨-, t', ht', hskip⟩ | ⟨cf, full, t', hcf, ht', hwrote⟩
  · rw [h₀]
    exact ⟨0, Nat.zero_le _, h⟩
  · rw [he]
    exact ⟨0, Nat.zero_le _, h⟩
  · rw [ht']
    refine ⟨values.length, le_rfl, hskip.counter.trans hcounter, fun cf hcf k hk => ?_⟩
    rw [hskip.db, hskip.activeCf] at hcf
    exact (h.keys cf hcf k hk).imp_right fun ⟨i, hi, heq⟩ => ⟨i, by omega, heq⟩
  · rw [ht']
    refine ⟨values.length, le_rfl, hwrote.counter.trans hcounter, fun cf' hcf' k hk => ?_⟩
    rw [hwrote.db, hwrote.activeCf, Db.writeCf, AList.lookup_insert, hbatch, Option.some.injEq] at hcf'
    rw [← hcf', SortedMap.mem_keys_insertMany] at hk
    rcases hk with hold | hnew
    · exact (h.keys cf hcf k hold).imp_right fun ⟨i, hi, heq⟩ => ⟨i, by omega, heq⟩
    · obtain ⟨id, hlo, hhi, rfl⟩ := mem_allot_fst.mp hnew
      refine Or.inr ⟨id - first, by omega, ?_⟩
      rw [Nat.add_sub_cancel' (by omega)]

lemma Taken.perform (h : Taken stored first taken t) (op : Op) :
    ∃ more ≤ valueCount [op], Taken stored first (taken + more) (t.perform op).2 := by
  cases op with
  | appendBatch values writeOk => exact h.appendBatch values writeOk
  | rotate ts createOk draw =>
    refine ⟨0, le_rfl, ?_⟩
    simp only [RocksStore.perform]
    rcases rotate_cases t ts createOk draw with herr | ⟨t', ht', hr⟩
    · rw [herr]
      exact h
    · rw [ht']
      refine ⟨hr.counter.trans h.counter, fun cf hcf k hk => ?_⟩
      -- the new column family is empty
      rw [hr.db, hr.activeCf, AList.lookup_insert, Option.some.injEq] at hcf
      rw [← hcf] at hk
      cases hk
  | dropFrozenCf name dropOk =>
    refine ⟨0, le_rfl, ?_⟩
    simp only [RocksStore.perform]
    rcases dropFrozenCf_cases t name dropOk with herr | ⟨t', ht', hd⟩
    · rw [herr]
      exact h
    · rw [ht']
      refine ⟨hd.counter.trans h.counter, fun cf hcf => h.keys cf ?_⟩
      rw [hd.db, hd.activeCf] at hcf
      by_cases hname : t.activeCf = name
      · subst hname
        rw [AList.lookup_erase] at hcf
        cases hcf
      · rwa [AList.lookup_erase_ne hname] at hcf

lemma valueCount_cons (op : Op) (ops : List Op) : valueCount (op :: ops) = valueCount [op] + valueCount ops := by
  cases op with
  | appendBatch values writeOk => rfl
  | rotate ts createOk draw => exact (Nat.zero_add _).symm
  | dropFrozenCf name dropOk => exact (Nat.zero_add _).symm

lemma Taken.afterAll (ops : List Op) (h : Taken stored first taken t) :
    ∃ more ≤ valueCount ops, Taken stored first (taken + more) (afterAll t ops) := by
  induction ops generalizing t taken with
  | nil => exact ⟨0, le_rfl, h⟩
  | cons op ops ih =>
    obtain ⟨a, ha, hop⟩ := h.perform op
    obtain ⟨b, hb, hops⟩ := ih hop
    rw [Nat.add_assoc] at hops
    refine ⟨a + b, ?_, hops⟩
    rw [valueCount_cons]
    exact Nat.add_le_add ha hb

/-- An append that takes no stored key and comes round to none of the others keeps all records. -/
lemma Taken.kept (h : Taken stored first taken t) (values : List Bytes) (writeOk : Bool)
    (hown : taken + values.length ≤ 2 ^ 64)
    (hstored : ∀ k ∈ stored, ∀ i < taken + values.length, k ≠ beBytes 8 (first + i))
    {name : String} {cf : ColumnFamily} (hcf : t.db.lookup name = some cf) {e : Bytes × Bytes}
    (he : e ∈ cf.entries) :
    ∃ cf', (t.appendBatch values writeOk).2.db.lookup name = some cf' ∧ e ∈ cf'.entries := by
  rcases appendBatch_cases t values writeOk with
    ⟨-, h₀⟩ | ⟨-, e', he'⟩ | ⟨-, t', ht', hskip⟩ | ⟨active, full, t', hactive, ht', hwrote⟩
  · rw [h₀]
    exact ⟨cf, hcf, he⟩
  · rw [he']
    exact ⟨cf, hcf, he⟩
  · rw [ht', hskip.db]
    exact ⟨cf, hcf, he⟩
  · rw [ht', hwrote.db, Db.writeCf, (foldl_putCf_counter values h.counter).2]
    by_cases hname : name = t.activeCf
    · subst hname
      rw [hactive, Option.some.injEq] at hcf
      subst hcf
      rw [AList.lookup_insert]
      refine ⟨_, rfl, SortedMap.mem_insertMany_of_notMem (fun hnew => ?_) he⟩
      obtain ⟨id, hlo, hhi, hid⟩ := mem_allot_fst.mp hnew
      rcases h.keys active hactive e.1 (List.mem_map_of_mem he) with hold | ⟨j, hj, heq⟩
      · refine hstored e.1 hold (id - first) (by omega) ?_
        rw [hid, Nat.add_sub_cancel' (by omega)]
      · rw [heq, beBytes_eight_eq_iff] at hid
        unfold u64 at hid
        omega
    · rw [AList.lookup_insert_ne hname]
      exact ⟨cf, hcf, he⟩

/-! ### What `new` reads -/

variable {disk : Option Db} {env : OpenEnv} {flushSizeBytes flushSizeJitterBytes : ℕ}

lemma keys_active (hnew : new disk env flushSizeBytes flushSizeJitterBytes = .ok s) :
    ((s.db.lookup s.activeCf).map SortedMap.keys).getD [] = storedKeys disk env := by
  obtain ⟨hopen, hactive, -⟩ := new_ok hnew
  rw [(Db.openCfDescriptors_some hopen).2, hactive, storedKeys]
  split
  · rfl
  · rename_i hnot
    rw [AList.lookup_eq_none.mpr hnot]
    split
    · rfl
    · rfl

lemma mem_storedKeys (hnew : new disk env flushSizeBytes flushSizeJitterBytes = .ok s) {k : Bytes} :
    k ∈ storedKeys disk env ↔ ∃ cf, s.db.lookup s.activeCf = some cf ∧ k ∈ cf.keys := by
  rw [← keys_active hnew]
  cases s.db.lookup s.activeCf with
  | none => simp
  | some cf => simp

lemma storedKeys_lt (hkeys : ∀ name cf, (disk.getD ∅).lookup name = some cf → KeysBelow cf (2 ^ 64 - 1))
    {k : Bytes} (hk : k ∈ storedKeys disk env) : ofBeBytes k < 2 ^ 64 - 1 ∧ k = beBytes 8 (ofBeBytes k) := by
  unfold storedKeys at hk
  cases hcf : (disk.getD ∅).lookup (chooseActive (env.listCf.getD [initialCf])) with
  | none =>
    rw [hcf] at hk
    cases hk
  | some cf =>
    rw [hcf] at hk
    obtain ⟨id, hid, rfl⟩ := hkeys _ cf hcf k hk
    rw [ofBeBytes_beBytes, Nat.mod_eq_of_lt (by omega)]
    exact ⟨hid, rfl⟩

lemma maxKey_of_read_error (db : Db) (name : String) : maxKey db name false = 0 := by
  unfold maxKey Db.cfHandle
  cases db.lookup name <;> rfl

lemma maxKey_stored (db : Db) (name : String) (readOk : Bool) :
    maxKey db name readOk = 0 ∨
      ∃ cf, db.lookup name = some cf ∧ ∃ k ∈ cf.keys, maxKey db name readOk = ofBeBytes k := by
  unfold maxKey Db.cfHandle
  cases db.lookup name with
  | none => exact Or.inl rfl
  | some cf =>
    cases readOk with
    | false => exact Or.inl rfl
    | true =>
      unfold iteratorEnd
      simp only [ite_true]
      cases hlast : cf.last? with
      | none => exact Or.inl rfl
      | some e =>
        simp only [Option.map_some]
        split
        · exact Or.inr ⟨cf, rfl, e.1, SortedMap.mem_keys_of_last? hlast, rfl⟩
        · exact Or.inl rfl

/-- The counter starts after zero or after one of the stored keys. -/
lemma counter_start (hnew : new disk env flushSizeBytes flushSizeJitterBytes = .ok s)
    (hkeys : ∀ name cf, (disk.getD ∅).lookup name = some cf → KeysBelow cf (2 ^ 64 - 1)) :
    ∃ last, s.counter = last + 1 ∧ last < 2 ^ 64 - 1 ∧
      (last = 0 ∨ ∃ k ∈ storedKeys disk env, ofBeBytes k = last) ∧
      (env.readOk = true → ∀ k ∈ storedKeys disk env, ofBeBytes k ≤ last) ∧
      (env.readOk = false → last = 0) := by
  obtain ⟨-, -, -, hcounter, -⟩ := new_ok hnew
  have hfrom : maxKey s.db s.activeCf env.readOk = 0 ∨
      ∃ k ∈ storedKeys disk env, ofBeBytes k = maxKey s.db s.activeCf env.readOk := by
    rcases maxKey_stored s.db s.activeCf env.readOk with hzero | ⟨cf, hcf, k, hk, heq⟩
    · exact Or.inl hzero
    · exact Or.inr ⟨k, (mem_storedKeys hnew).mpr ⟨cf, hcf, hk⟩, heq.symm⟩
  have hlt : maxKey s.db s.activeCf env.readOk < 2 ^ 64 - 1 := by
    rcases hfrom with hzero | ⟨k, hk, heq⟩
    · omega
    · exact heq ▸ (storedKeys_lt hkeys hk).1
  refine ⟨maxKey s.db s.activeCf env.readOk, ?_, hlt, hfrom, fun hread k hk => ?_, fun hread => ?_⟩
  · rw [hcounter]
    exact Nat.mod_eq_of_lt (by omega)
  · obtain ⟨cf, hcf, hmem⟩ := (mem_storedKeys hnew).mp hk
    have hbelow : KeysBelow cf (2 ^ 64 - 1) := fun j hj =>
      ⟨_, storedKeys_lt hkeys ((mem_storedKeys hnew).mpr ⟨cf, hcf, hj⟩)⟩
    obtain ⟨id, hid, rfl⟩ := (maxKey_above hcf hbelow (by omega)).2 k hmem
    rw [hread, ofBeBytes_beBytes]
    have hmod := Nat.mod_le id (256 ^ 8)
    omega
  · rw [hread, maxKey_of_read_error]

/-- Every stored key is below the counter exactly when the last one was read, or all are zero. -/
lemma above_iff (hnew : new disk env flushSizeBytes flushSizeJitterBytes = .ok s)
    (hkeys : ∀ name cf, (disk.getD ∅).lookup name = some cf → KeysBelow cf (2 ^ 64 - 1)) :
    (∀ k ∈ storedKeys disk env, ofBeBytes k < s.counter) ↔
      env.readOk = true ∨ ∀ k ∈ storedKeys disk env, ofBeBytes k = 0 := by
  obtain ⟨last, hcounter, -, -, hread, herror⟩ := counter_start hnew hkeys
  rw [hcounter]
  constructor
  · intro h
    cases hok : env.readOk with
    | true => exact Or.inl rfl
    | false =>
      refine Or.inr fun k hk => ?_
      have hlt := h k hk
      have hzero := herror hok
      omega
  · rintro (hok | hzero) k hk
    · have hle := hread hok k hk
      omega
    · rw [hzero k hk]
      omega

lemma appendBatch_wrote {cf : ColumnFamily} {values : List Bytes} (hcf : t.db.lookup t.activeCf = some cf)
    (hne : values ≠ []) :
    ∃ full t', t.appendBatch values true = (.ok full, t') ∧ Wrote t t.activeCf cf values t' := by
  have hempty : values.isEmpty = false := by rw [List.isEmpty_eq_false_iff]; exact hne
  simp only [appendBatch, hempty, writeBatch, Db.cfHandle, hcf]
  exact ⟨_, _, rfl, rfl, rfl, rfl, rfl, rfl⟩

/-- An append that takes the key of a record can replace it. -/
lemma exists_overwriting (len : ℕ) (v : Bytes) {cf : ColumnFamily} (hcf : t.db.lookup t.activeCf = some cf)
    (hcounter : t.counter = u64 first) {id i : ℕ} (hi : i < len) (hid : u64 (first + i) = u64 id) :
    ∃ values : List Bytes, values.length = len ∧ ∀ cf',
      (t.appendBatch values true).2.db.lookup t.activeCf = some cf' → (beBytes 8 id, v) ∉ cf'.entries := by
  refine ⟨List.replicate len (0 :: v), List.length_replicate, fun cf' hcf' hmem => ?_⟩
  have hne : List.replicate len (0 :: v) ≠ [] := by
    rw [Ne, List.replicate_eq_nil_iff]
    omega
  obtain ⟨full, t', ht', hwrote⟩ := appendBatch_wrote hcf hne
  have hbatch := (foldl_putCf_u64 (List.replicate len (0 :: v)) first 0 []).2
  rw [ht', hwrote.db, Db.writeCf, AList.lookup_insert, hcounter, hbatch, Option.some.injEq] at hcf'
  rw [← hcf'] at hmem
  have hkey : beBytes 8 id ∈ ([] ++ allot first (List.replicate len (0 :: v))).map Prod.fst := by
    rw [List.nil_append, mem_allot_fst, List.length_replicate]
    exact ⟨first + i, by omega, by omega, beBytes_eight_eq_iff.mpr hid.symm⟩
  have hvalues : ∀ e ∈ [] ++ allot first (List.replicate len (0 :: v)), e.2 = 0 :: v := by
    intro e he
    have hsnd := List.mem_map_of_mem (f := Prod.snd) he
    rw [List.nil_append, allot_snd] at hsnd
    exact List.eq_of_mem_replicate hsnd
  have hcycle := SortedMap.eq_of_mem_insertMany hvalues (Or.inl hkey) hmem
  exact absurd (congrArg List.length hcycle) (by rw [List.length_cons]; omega)

lemma exists_rotatedCf_notMem (db : Db) : ∃ ts, rotatedCf ts ∉ db := by
  obtain ⟨_, ⟨ts, rfl⟩, hts⟩ :=
    (Set.infinite_range_of_injective rotatedCf_injective).exists_notMem_finset db.keys.toFinset
  refine ⟨ts, fun hmem => hts ?_⟩
  rw [List.mem_toFinset]
  exact AList.mem_keys.mp hmem

/-- One value appended after a rotation, then as many as there are keys. -/
lemma own_of_setsUpNoOverwrite (h : SetsUpNoOverwrite s n) (hcounter : s.counter = u64 first) : n ≤ 2 ^ 64 := by
  by_contra hlarge
  obtain ⟨ts, hfresh⟩ := exists_rotatedCf_notMem s.db
  have hrotated : ∃ t, (s.rotate ts true 0).2 = t ∧ t.db.lookup t.activeCf = some SortedMap.empty ∧
      t.counter = u64 first := by
    simp only [RocksStore.rotate, Db.createCf, if_neg hfresh, ite_true]
    exact ⟨_, rfl, AList.lookup_insert _, hcounter⟩
  obtain ⟨t, ht, hcf, hstart⟩ := hrotated
  obtain ⟨full, t', ht', hwrote⟩ := appendBatch_wrote hcf (List.cons_ne_nil [] [])
  have hfold := foldl_putCf_u64 [[]] first 0 []
  rw [← hstart] at hfold
  have hall : afterAll s [.rotate ts true 0, .appendBatch [[]] true] = t' := by
    simp only [afterAll, List.foldl_cons, List.foldl_nil, RocksStore.perform, ht, ht']
  have hactive : (afterAll s [.rotate ts true 0, .appendBatch [[]] true]).db.lookup t'.activeCf =
      some (SortedMap.empty.insertMany [(beBytes 8 first, [])]) := by
    rw [hall, hwrote.activeCf, hwrote.db, Db.writeCf, AList.lookup_insert, hfold.2]
    rfl
  have hcomes : u64 (first + 1 + (2 ^ 64 - 1)) = u64 first := by
    unfold u64
    omega
  obtain ⟨values, hlength, hreplaced⟩ :=
    exists_overwriting (2 ^ 64) [] (hall ▸ hactive) (hwrote.counter.trans hfold.1) (by omega) hcomes
  have hcount : valueCount [.rotate ts true 0, .appendBatch [[]] true] + values.length ≤ n := by
    rw [hlength]
    exact (Nat.add_comm 1 _).trans_le (Nat.lt_of_not_le hlarge)
  obtain ⟨cf', hcf', hkept⟩ := h.kept [.rotate ts true 0, .appendBatch [[]] true] values true hcount
    t'.activeCf _ hactive (beBytes 8 first, []) (List.mem_singleton_self _)
  rw [hall] at hcf'
  exact hreplaced cf' hcf' hkept

/-- A reopen sets up no overwrite by `n` values exactly when the last key was read, or there was none
but zero to read, and the counter has room for these values. -/
theorem reopen_safe_iff (hnew : new disk env flushSizeBytes flushSizeJitterBytes = .ok s)
    (hkeys : ∀ name cf, (disk.getD ∅).lookup name = some cf → KeysBelow cf (2 ^ 64 - 1)) :
    SetsUpNoOverwrite s n ↔ CounterFits disk env n := by
  obtain ⟨last, hcounter, hlast, hstart, hread, herror⟩ := counter_start hnew hkeys
  have hfirst : s.counter = u64 (last + 1) := hcounter.trans (Nat.mod_eq_of_lt (by omega)).symm
  constructor
  · intro h
    have habove : ∀ k ∈ storedKeys disk env, ofBeBytes k < s.counter := by
      intro k hk
      obtain ⟨cf, hcf, hmem⟩ := (mem_storedKeys hnew).mp hk
      exact h.above cf hcf k hmem
    refine ⟨(above_iff hnew hkeys).mp habove, fun k hk top htop => ?_, own_of_setsUpNoOverwrite h hfirst⟩
    by_contra hover
    have htopLt := habove top htop
    have hkLt := storedKeys_lt hkeys hk
    obtain ⟨cf, hcf, hmem⟩ := (mem_storedKeys hnew).mp hk
    obtain ⟨e, he, rfl⟩ := List.mem_map.mp hmem
    have hcomes : u64 (last + 1 + (2 ^ 64 + ofBeBytes e.1 - (last + 1))) = u64 (ofBeBytes e.1) := by
      unfold u64
      omega
    obtain ⟨values, hlength, hreplaced⟩ := exists_overwriting n e.2 hcf hfirst (by omega) hcomes
    have hcount : valueCount [] + values.length ≤ n := by
      rw [hlength]
      exact (Nat.zero_add n).le
    obtain ⟨cf', hcf', hkept⟩ := h.kept [] values true hcount s.activeCf cf hcf e he
    rw [← hkLt.2] at hreplaced
    exact hreplaced cf' hcf' hkept
  · intro h
    have habove := (above_iff hnew hkeys).mpr h.read
    have htaken : Taken (storedKeys disk env) (last + 1) 0 s :=
      ⟨hfirst, fun cf hcf k hk => Or.inl ((mem_storedKeys hnew).mpr ⟨cf, hcf, hk⟩)⟩
    refine ⟨fun cf hcf k hk => habove k ((mem_storedKeys hnew).mpr ⟨cf, hcf, hk⟩), ?_⟩
    intro ops values writeOk hcount name cf hcf e he
    obtain ⟨more, hmore, hafter⟩ := htaken.afterAll ops
    have hown := h.own
    refine hafter.kept values writeOk (by omega) (fun k hk i hi heq => ?_) hcf he
    have hkLt := habove k hk
    have hroom := h.stored k hk
    have hlastRoom : last + 1 + n ≤ 2 ^ 64 + ofBeBytes k := by
      rcases hstart with hzero | ⟨top, htop, htopEq⟩
      · have hself := hroom k hk
        omega
      · exact htopEq ▸ hroom top htop
    rw [(storedKeys_lt hkeys hk).2, beBytes_eight_eq_iff] at heq
    unfold u64 at heq
    omega

/-- One record is stored, under the key one. -/
def oneRecordDisk : Option Db := some (freshStore.appendBatch [[1]] true).2.db

lemma keysBelow_oneRecordDisk (name : String) (cf : ColumnFamily) (h : (oneRecordDisk.getD ∅).lookup name = some cf) :
    KeysBelow cf (2 ^ 64 - 1) := by
  change (freshStore.db.insert initialCf (SortedMap.empty.insertMany (allot 1 [[1]]))).lookup name = some cf at h
  by_cases hname : name = initialCf
  · subst hname
    rw [AList.lookup_insert, Option.some.injEq] at h
    rw [← h]
    exact (insertMany_allot (keysBelow_empty 1) (by decide)).2.mono (by decide)
  · rw [AList.lookup_insert_ne hname] at h
    have hempty : cf = SortedMap.empty := by
      have hlookup := Db.lookup_createMissing ∅ [Db.defaultCf, initialCf] name
      change freshStore.db.lookup name = _ at hlookup
      rw [h] at hlookup
      split at hlookup
      · exact Option.some.inj hlookup
      · cases hlookup
    rw [hempty]
    exact keysBelow_empty _

/-- With the last key read, a million appends leave the record as it is. -/
theorem reopen_safe_after_read :
    ∃ s, new oneRecordDisk ⟨some ["active", "default"], true, true, 0⟩ 0 0 = .ok s ∧
      SetsUpNoOverwrite s 1000000 := by
  have hfits : CounterFits oneRecordDisk ⟨some ["active", "default"], true, true, 0⟩ 1000000 :=
    ⟨Or.inl rfl, by decide, by decide⟩
  exact ⟨_, rfl, (reopen_safe_iff rfl keysBelow_oneRecordDisk).mpr hfits⟩

/-- A read error on the last key starts the counter at one, where there is a record already. -/
theorem failed_read_restarts_counter :
    ¬∀ (disk : Option Db) (env : OpenEnv) (flushSizeBytes flushSizeJitterBytes : ℕ) (s : RocksStore),
      new disk env flushSizeBytes flushSizeJitterBytes = .ok s →
      (∀ name cf, (disk.getD ∅).lookup name = some cf → KeysBelow cf (2 ^ 64 - 1)) →
      ∀ n, SetsUpNoOverwrite s n := by
  intro h
  have hsafe := h oneRecordDisk ⟨some ["active", "default"], true, false, 0⟩ 0 0 _ rfl keysBelow_oneRecordDisk 1
  exact absurd (hsafe.above _ rfl (beBytes 8 1) (by decide)) (by decide)

end MicewriterEngine.Proofs
