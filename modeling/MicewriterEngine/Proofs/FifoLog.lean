import Mathlib.Tactic.Linarith
import MicewriterEngine.Model.History
import MicewriterEngine.Proofs.StoreSteps

/-!
# Column families are logs

The key counter stays above every key of the active column family, through rotations,
failed writes, drops and reopens. Therefore a batch write appends to the log of its
column family, and the byte order in which RocksDB iterates is the order of the appends.
-/

namespace MicewriterEngine.Proofs
open Lib RocksStore

/-- The keys of a column family are numbers below `bound`, eight bytes each. -/
def KeysBelow (cf : ColumnFamily) (bound : ℕ) : Prop :=
  ∀ k ∈ cf.keys, ∃ id < bound, k = beBytes 8 id

lemma KeysBelow.mono {cf : ColumnFamily} {a b : ℕ} (h : KeysBelow cf a) (hab : a ≤ b) : KeysBelow cf b := by
  intro k hk
  obtain ⟨id, hid, rfl⟩ := h k hk
  exact ⟨id, hid.trans_le hab, rfl⟩

lemma keysBelow_empty (bound : ℕ) : KeysBelow SortedMap.empty bound := by
  intro k hk
  cases hk

lemma beBytes_eight_lt {a b : ℕ} (hb : b < 2 ^ 64) (hab : a < b) : beBytes 8 a < beBytes 8 b := by
  rw [beBytes_lt_iff (by omega) (by omega)]
  exact hab

lemma mem_allot_fst {first : ℕ} {values : List Bytes} {k : Bytes} :
    k ∈ (allot first values).map Prod.fst ↔
      ∃ id, first ≤ id ∧ id < first + values.length ∧ k = beBytes 8 id := by
  rw [allot_fst, List.mem_map]
  constructor
  · rintro ⟨id, hid, rfl⟩
    rw [List.mem_range'_1] at hid
    exact ⟨id, hid.1, hid.2, rfl⟩
  · rintro ⟨id, hlo, hhi, rfl⟩
    exact ⟨id, List.mem_range'_1.mpr ⟨hlo, hhi⟩, rfl⟩

lemma allot_increasing {first : ℕ} {values : List Bytes} (h : first + values.length < 2 ^ 64) :
    ((allot first values).map Prod.fst).Pairwise (· < ·) := by
  rw [allot_fst, List.pairwise_map]
  refine List.Pairwise.imp_of_mem ?_ (List.pairwise_lt_range' (s := first) (n := values.length))
  intro a b _ hb hab
  rw [List.mem_range'_1] at hb
  exact beBytes_eight_lt (by omega) hab

/-- A batch whose keys start above all keys of the column family is appended to it. -/
theorem insertMany_allot {cf : ColumnFamily} {first : ℕ} {values : List Bytes}
    (hkeys : KeysBelow cf first) (hroom : first + values.length < 2 ^ 64) :
    (cf.insertMany (allot first values)).values = cf.values ++ values ∧
      KeysBelow (cf.insertMany (allot first values)) (first + values.length) := by
  have habove : ∀ j ∈ cf.keys, ∀ k ∈ (allot first values).map Prod.fst, j < k := by
    intro j hj k hk
    obtain ⟨a, ha, rfl⟩ := hkeys j hj
    obtain ⟨b, hlo, hhi, rfl⟩ := mem_allot_fst.mp hk
    exact beBytes_eight_lt (by omega) (by omega)
  have hincr := allot_increasing hroom
  constructor
  · rw [SortedMap.values_insertMany_of_increasing _ _ hincr habove, allot_snd]
  · intro k hk
    rw [SortedMap.keys_insertMany_of_increasing _ _ hincr habove, List.mem_append] at hk
    rcases hk with hk | hk
    · obtain ⟨id, hid, rfl⟩ := hkeys k hk
      exact ⟨id, by omega, rfl⟩
    · obtain ⟨id, -, hhi, rfl⟩ := mem_allot_fst.mp hk
      exact ⟨id, hhi, rfl⟩

/-- Without a read error the counter starts above every key of the chosen column family. -/
theorem maxKey_above {db : Db} {name : String} {cf : ColumnFamily} {bound : ℕ}
    (hcf : db.lookup name = some cf) (hkeys : KeysBelow cf bound) (hbound : bound ≤ 2 ^ 64) :
    maxKey db name true < max bound 1 ∧ KeysBelow cf (maxKey db name true + 1) := by
  unfold maxKey Db.cfHandle iteratorEnd
  rw [hcf]
  simp only [ite_true]
  cases hlast : cf.last? with
  | none =>
    refine ⟨by simp, fun k hk => ?_⟩
    rw [SortedMap.keys_eq_nil_of_last?_eq_none hlast] at hk
    cases hk
  | some e =>
    obtain ⟨id, hid, hk⟩ := hkeys e.1 (SortedMap.mem_keys_of_last? hlast)
    have hlen : e.1.length = 8 := by rw [hk, length_beBytes]
    have hval : ofBeBytes e.1 = id := by
      rw [hk, ofBeBytes_beBytes]
      exact Nat.mod_eq_of_lt (by omega)
    simp only [Option.map_some, hlen, ite_true, hval]
    refine ⟨by omega, fun j hj => ?_⟩
    obtain ⟨jd, hjd, rfl⟩ := hkeys j hj
    refine ⟨jd, ?_, rfl⟩
    by_contra hcon
    have hle := SortedMap.le_of_last? hlast hj
    rw [hk] at hle
    exact absurd (beBytes_eight_lt (by omega) (by omega : id < jd)) (not_lt.mpr hle)

theorem wrote_refines {s s' : RocksStore} {name : String} {cf : ColumnFamily} {values : List Bytes}
    (h : Wrote s name cf values s') (hcf : s.db.lookup name = some cf)
    (hkeys : KeysBelow cf s.counter) (hroom : s.counter + values.length < 2 ^ 64) :
    s'.toLogStore = s.toLogStore.append name values := by
  obtain ⟨-, hbatch⟩ := foldl_putCf values ⟨s.counter, 0, []⟩ hroom
  have hvalues := (insertMany_allot hkeys hroom).1
  unfold RocksStore.toLogStore LogStore.append
  rw [h.activeCf, h.orphanedCfs, h.db, hbatch, List.nil_append, Db.writeCf, Db.logs_insert, hvalues]
  simp only [Db.logs_eq_some hcf, Option.map_some]

theorem rotated_refines {s s' : RocksStore} {ts : ℕ} (h : Rotated s ts s') :
    s'.toLogStore = s.toLogStore.rotate (rotatedCf ts) := by
  unfold RocksStore.toLogStore LogStore.rotate
  rw [h.activeCf, h.orphanedCfs, h.db, Db.logs_insert, SortedMap.values_empty]

theorem dropped_refines {s s' : RocksStore} {name : String} (h : Dropped s name s') :
    s'.toLogStore = s.toLogStore.drop name := by
  unfold RocksStore.toLogStore LogStore.drop
  rw [h.activeCf, h.orphanedCfs, h.db, Db.logs_erase]

def collect (acc : List Bytes) (v : Bytes) : Except Error Unit × List Bytes := (.ok (), acc ++ [v])

lemma iterateItems_collect (vs acc : List Bytes) :
    iterateItems collect (vs.map .ok) acc = (.ok (), acc ++ vs) := by
  induction vs generalizing acc with
  | nil => simp [iterateItems]
  | cons v vs ih =>
    simp only [List.map_cons, iterateItems, collect]
    rw [ih, List.append_assoc, List.singleton_append]

theorem iterateCf_collect {s : RocksStore} {name : String} {log : List Bytes}
    (h : s.toLogStore.logs name = some log) : s.iterateCf name none collect [] = (.ok (), log) := by
  simp only [RocksStore.toLogStore, Db.logs, Option.map_eq_some_iff] at h
  obtain ⟨cf, hcf, rfl⟩ := h
  simp only [iterateCf, Db.cfHandle, hcf, iteratorStart]
  rw [iterateItems_collect, List.nil_append]

/-! ### Histories -/

/-- What the directory holds is what was written to it, and the counter of the open store is
above every key of its active column family. -/
structure FifoInv (h : History) : Prop where
  written : ∀ name, h.written name = (h.process.db.logs name).getD []
  keys : ∀ name cf, h.process.db.lookup name = some cf → KeysBelow cf (h.allotted + 1)
  counter : ∀ s, h.process = .up s → s.counter ≤ h.allotted + 1 ∧
    ∀ cf, s.db.lookup s.activeCf = some cf → KeysBelow cf s.counter

variable {h : History} {s : RocksStore}

lemma fifoInv_up {written acked : String → List Bytes} {allotted : ℕ}
    (hwritten : ∀ name, written name = (s.db.logs name).getD [])
    (hkeys : ∀ name cf, s.db.lookup name = some cf → KeysBelow cf (allotted + 1))
    (hcounter : s.counter ≤ allotted + 1)
    (hactive : ∀ cf, s.db.lookup s.activeCf = some cf → KeysBelow cf s.counter) :
    FifoInv ⟨.up s, written, acked, allotted⟩ := by
  refine ⟨hwritten, hkeys, ?_⟩
  rintro _ ⟨⟩
  exact ⟨hcounter, hactive⟩

/-- The invariant as a statement about the open store. -/
lemma FifoInv.up (hinv : FifoInv h) (hup : h.process = .up s) :
    (∀ name, h.written name = (s.db.logs name).getD []) ∧
      (∀ name cf, s.db.lookup name = some cf → KeysBelow cf (h.allotted + 1)) ∧ s.counter ≤ h.allotted + 1 ∧
      ∀ cf, s.db.lookup s.activeCf = some cf → KeysBelow cf s.counter := by
  have hdb : h.process.db = s.db := by rw [hup]; rfl
  exact ⟨fun name => hdb ▸ hinv.written name, fun name cf hcf => hinv.keys name cf (hdb ▸ hcf), hinv.counter s hup⟩

lemma FifoInv.append (hinv : FifoInv h) (hup : h.process = .up s) (values : List Bytes)
    (writeOk returned : Bool)
    (hroom : h.allotted + s.keysAllotted (.appendBatch values writeOk) + 1 < 2 ^ 64) :
    FifoInv (h.record s (.appendBatch values writeOk) returned
      (.up (s.perform (.appendBatch values writeOk)).2)) := by
  obtain ⟨hwritten, hkeys, hcounter, hactive⟩ := hinv.up hup
  rcases appendBatch_cases s values writeOk with
    ⟨rfl, h₀⟩ | ⟨hno, e, he⟩ | ⟨hmem, s', hs', hskip⟩ | ⟨cf, full, s', hcf, hs', hwrote⟩
  · simp only [History.record, RocksStore.perform, h₀, recordAppend, recordDrop, RocksStore.keysAllotted,
      Except.isOk, Except.toBool, List.append_nil, Function.update_eq_self, List.length_nil,
      ite_self, Nat.add_zero]
    exact fifoInv_up hwritten hkeys hcounter hactive
  · simp only [History.record, RocksStore.perform, he, recordAppend, recordDrop, RocksStore.keysAllotted,
      Except.isOk, Except.toBool, hno, ite_false, Nat.add_zero, Bool.false_eq_true]
    exact fifoInv_up hwritten hkeys hcounter hactive
  · simp only [RocksStore.keysAllotted, hmem, ite_true] at hroom
    obtain ⟨hcount, -⟩ := foldl_putCf values ⟨s.counter, 0, []⟩ (by simp only; omega)
    simp only [History.record, RocksStore.perform, hs', recordAppend, recordDrop, RocksStore.keysAllotted,
      Except.isOk, Except.toBool, hmem, ite_true, ite_false, Bool.false_eq_true]
    dsimp only at hcount
    refine fifoInv_up ?_ ?_ ?_ ?_
    · intro name
      rw [hskip.db]
      exact hwritten name
    · intro name cf hcf
      rw [hskip.db] at hcf
      exact (hkeys name cf hcf).mono (by omega)
    · rw [hskip.counter, hcount]
      omega
    · rw [hskip.counter, hcount, hskip.activeCf, hskip.db]
      exact fun cf hcf => (hactive cf hcf).mono (by omega)
  · have hmem : s.activeCf ∈ s.db := by rw [← AList.lookup_isSome, hcf, Option.isSome_some]
    simp only [RocksStore.keysAllotted, hmem, ite_true] at hroom
    have hspace : s.counter + values.length < 2 ^ 64 := by omega
    obtain ⟨hcount, hbatch⟩ := foldl_putCf values ⟨s.counter, 0, []⟩ hspace
    have hrefines := congrArg LogStore.logs (wrote_refines hwrote hcf (hactive cf hcf) hspace)
    have hbelow := (insertMany_allot (hactive cf hcf) hspace).2
    simp only [RocksStore.toLogStore, LogStore.append, Db.logs_eq_some hcf, Option.map_some] at hrefines
    simp only [List.nil_append] at hbatch
    dsimp only at hcount
    simp only [History.record, RocksStore.perform, hs', recordAppend, recordDrop, RocksStore.keysAllotted,
      Except.isOk, Except.toBool, hmem, ite_true]
    refine fifoInv_up ?_ ?_ ?_ ?_
    · intro name
      rw [hrefines]
      by_cases hname : name = s.activeCf
      · subst hname
        rw [Function.update_self, Function.update_self, hwritten, Db.logs_eq_some hcf]
        rfl
      · rw [Function.update_of_ne hname, Function.update_of_ne hname]
        exact hwritten name
    · intro name cf' hcf'
      rw [hwrote.db, Db.writeCf] at hcf'
      by_cases hname : name = s.activeCf
      · subst hname
        rw [AList.lookup_insert, hbatch, Option.some.injEq] at hcf'
        subst hcf'
        exact hbelow.mono (by omega)
      · rw [AList.lookup_insert_ne hname] at hcf'
        exact (hkeys name cf' hcf').mono (by omega)
    · rw [hwrote.counter, hcount]
      omega
    · rw [hwrote.counter, hcount, hwrote.activeCf, hwrote.db, Db.writeCf, AList.lookup_insert, hbatch]
      rintro _ ⟨⟩
      exact hbelow

lemma FifoInv.rotate (hinv : FifoInv h) (hup : h.process = .up s) (ts : ℕ) (createOk : Bool)
    (draw : ℕ) (returned : Bool) :
    FifoInv (h.record s (.rotate ts createOk draw) returned
      (.up (s.perform (.rotate ts createOk draw)).2)) := by
  obtain ⟨hwritten, hkeys, hcounter, hactive⟩ := hinv.up hup
  simp only [History.record, RocksStore.perform, recordAppend, recordDrop, RocksStore.keysAllotted,
    Nat.add_zero]
  rcases rotate_cases s ts createOk draw with herr | ⟨s', hs', hr⟩
  · rw [herr]
    exact fifoInv_up hwritten hkeys hcounter hactive
  · have hrefines := congrArg LogStore.logs (rotated_refines hr)
    simp only [RocksStore.toLogStore, LogStore.rotate] at hrefines
    rw [hs']
    refine fifoInv_up ?_ ?_ ?_ ?_
    · intro name
      rw [hrefines]
      by_cases hname : name = rotatedCf ts
      · subst hname
        rw [Function.update_self, hwritten, Db.logs_eq_none hr.fresh]
        rfl
      · rw [Function.update_of_ne hname]
        exact hwritten name
    · intro name cf hcf
      rw [hr.db] at hcf
      by_cases hname : name = rotatedCf ts
      · subst hname
        rw [AList.lookup_insert, Option.some.injEq] at hcf
        subst hcf
        exact keysBelow_empty _
      · rw [AList.lookup_insert_ne hname] at hcf
        exact hkeys name cf hcf
    · rw [hr.counter]
      exact hcounter
    · rw [hr.activeCf, hr.db, AList.lookup_insert]
      rintro _ ⟨⟩
      exact keysBelow_empty _

lemma FifoInv.drop (hinv : FifoInv h) (hup : h.process = .up s) (name : String) (dropOk returned : Bool) :
    FifoInv (h.record s (.dropFrozenCf name dropOk) returned
      (.up (s.perform (.dropFrozenCf name dropOk)).2)) := by
  obtain ⟨hwritten, hkeys, hcounter, hactive⟩ := hinv.up hup
  rcases dropFrozenCf_cases s name dropOk with herr | ⟨s', hs', hd⟩
  · simp only [History.record, RocksStore.perform, herr, recordAppend, recordDrop, RocksStore.keysAllotted,
      Except.isOk, Except.toBool, Nat.add_zero, ite_false, Bool.false_eq_true]
    exact fifoInv_up hwritten hkeys hcounter hactive
  · have hrefines := congrArg LogStore.logs (dropped_refines hd)
    simp only [RocksStore.toLogStore, LogStore.drop] at hrefines
    have herase : ∀ other cf, s'.db.lookup other = some cf → s.db.lookup other = some cf := by
      intro other cf hcf
      rw [hd.db] at hcf
      by_cases hother : other = name
      · subst hother
        rw [AList.lookup_erase] at hcf
        cases hcf
      · rwa [AList.lookup_erase_ne hother] at hcf
    simp only [History.record, RocksStore.perform, hs', recordAppend, recordDrop, RocksStore.keysAllotted,
      Except.isOk, Except.toBool, Nat.add_zero, ite_true]
    refine fifoInv_up ?_ ?_ ?_ ?_
    · intro other
      rw [hrefines]
      by_cases hother : other = name
      · subst hother
        rw [Function.update_self, Function.update_self]
        rfl
      · rw [Function.update_of_ne hother, Function.update_of_ne hother]
        exact hwritten other
    · exact fun other cf hcf => hkeys other cf (herase other cf hcf)
    · rw [hd.counter]
      exact hcounter
    · rw [hd.counter, hd.activeCf]
      exact fun cf hcf => hactive cf (herase _ cf hcf)

theorem FifoInv.perform (hinv : FifoInv h) (hup : h.process = .up s) (op : Op) (returned : Bool)
    (hroom : h.allotted + s.keysAllotted op + 1 < 2 ^ 64) :
    FifoInv (h.record s op returned (.up (s.perform op).2)) := by
  cases op with
  | appendBatch values writeOk => exact hinv.append hup values writeOk returned hroom
  | rotate ts createOk draw => exact hinv.rotate hup ts createOk draw returned
  | dropFrozenCf name dropOk => exact hinv.drop hup name dropOk returned

lemma FifoInv.down (h : History) (process : Process) (hinv : FifoInv { h with process := process }) :
    FifoInv { h with process := .down (some process.db) } :=
  ⟨hinv.written, hinv.keys, fun _ hup => nomatch hup⟩

/-- The second database has the column families of the first and possibly new, empty ones. -/
def Grown (old db : Db) : Prop :=
  ∀ name, db.lookup name = old.lookup name ∨ name ∉ old ∧ db.lookup name = some SortedMap.empty

lemma grown_createMissing (db : Db) (names : List String) : Grown db (db.createMissing names) := by
  intro name
  rw [Db.lookup_createMissing]
  split
  · rename_i h
    exact Or.inr ⟨h.2, rfl⟩
  · exact Or.inl rfl

lemma grown_of_opened {disk : Option Db} {names : List String} {db : Db}
    (h : Db.openCfDescriptors disk names = some db) : Grown (disk.getD ∅) db := by
  intro name
  rw [(Db.openCfDescriptors_some h).2]
  split
  · exact Or.inl rfl
  · rename_i hno
    split
    · exact Or.inr ⟨hno, rfl⟩
    · exact Or.inl (AList.lookup_eq_none.mpr hno).symm

lemma Grown.logs_getD {old db : Db} (hgrown : Grown old db) (name : String) :
    (db.logs name).getD [] = (old.logs name).getD [] := by
  rcases hgrown name with hname | ⟨hno, hname⟩
  · rw [Db.logs, Db.logs, hname]
  · rw [Db.logs_eq_none hno, Db.logs_eq_some hname]
    rfl

lemma Grown.keysBelow {old db : Db} {bound : ℕ} (hgrown : Grown old db)
    (hkeys : ∀ name cf, old.lookup name = some cf → KeysBelow cf bound) :
    ∀ name cf, db.lookup name = some cf → KeysBelow cf bound := by
  intro name cf hcf
  rcases hgrown name with hname | ⟨-, hname⟩
  · exact hkeys name cf (hname ▸ hcf)
  · rw [hname, Option.some.injEq] at hcf
    subst hcf
    exact keysBelow_empty bound

theorem FifoInv.opened {disk : Option Db} {env : OpenEnv} {flushSizeBytes flushSizeJitterBytes : ℕ}
    (hinv : FifoInv h) (hdown : h.process = .down disk) (hread : env.readOk = true)
    (hroom : h.allotted + 1 < 2 ^ 64)
    (hnew : RocksStore.new disk env flushSizeBytes flushSizeJitterBytes = .ok s) :
    FifoInv { h with process := .up s } := by
  obtain ⟨hopen, -, -, hcounter, -⟩ := new_ok hnew
  have hgrown := grown_of_opened hopen
  have hbelow : ∀ name cf, s.db.lookup name = some cf → KeysBelow cf (h.allotted + 1) := by
    apply hgrown.keysBelow
    simpa [hdown, Process.db] using hinv.keys
  rw [hread] at hcounter
  have hstart : s.counter ≤ h.allotted + 1 ∧
      ∀ cf, s.db.lookup s.activeCf = some cf → KeysBelow cf s.counter := by
    rw [hcounter]
    cases hcf : s.db.lookup s.activeCf with
    | none =>
      have hzero : RocksStore.maxKey s.db s.activeCf true = 0 := by
        simp only [RocksStore.maxKey, Db.cfHandle, hcf]
      rw [hzero]
      exact ⟨by simp [u64], fun cf hcf' => by cases hcf'⟩
    | some cf =>
      obtain ⟨hmax, habove⟩ := maxKey_above hcf (hbelow _ cf hcf) (by omega)
      have hwrap : u64 (RocksStore.maxKey s.db s.activeCf true + 1) =
          RocksStore.maxKey s.db s.activeCf true + 1 := Nat.mod_eq_of_lt (by omega)
      rw [hwrap]
      refine ⟨by omega, ?_⟩
      rintro _ ⟨⟩
      exact habove
  refine fifoInv_up (fun name => ?_) hbelow hstart.1 hstart.2
  rw [hgrown.logs_getD, hinv.written, hdown, Process.db]

lemma FifoInv.crashInOpen {disk : Option Db} (hinv : FifoInv h) (hdown : h.process = .down disk)
    (names : List String) :
    FifoInv { h with process := .down (some ((disk.getD ∅).createMissing names)) } := by
  have hgrown := grown_createMissing (disk.getD ∅) names
  refine ⟨fun name => ?_, ?_, fun _ hup => nomatch hup⟩
  · dsimp only [Process.db, Option.getD_some]
    rw [hgrown.logs_getD, hinv.written, hdown, Process.db]
  · apply hgrown.keysBelow
    simpa [hdown, Process.db] using hinv.keys

lemma allotted_le_of_step {h h' : History} {e : Event} (hstep : HistoryStep h e h') :
    h.allotted ≤ h'.allotted := by
  cases hstep with
  | call op hup => exact Nat.le_add_right _ _
  | crash hup => exact le_rfl
  | crashIn op hup => exact Nat.le_add_right _ _
  | opened hdown hlist hnew => exact le_rfl
  | openFailed hdown hlist hnew => exact le_rfl
  | crashInOpen created hdown hlist hopen => exact le_rfl

theorem FifoInv.step {h h' : History} {e : Event} (hinv : FifoInv h) (hread : e.ReadsOk)
    (hstep : HistoryStep h e h') (hroom : h'.allotted + 1 < 2 ^ 64) : FifoInv h' := by
  cases hstep with
  | call op hup => exact hinv.perform hup op true hroom
  | @crash s hup =>
    have hup' : { h with process := .up s } = h := by rw [← hup]
    exact FifoInv.down h (.up s) (hup'.symm ▸ hinv)
  | @crashIn s op hup =>
    exact FifoInv.down (h.record s op false (.up (s.perform op).2)) (.up (s.perform op).2)
      (hinv.perform hup op false hroom)
  | opened hdown hlist hnew => exact hinv.opened hdown hread hroom hnew
  | openFailed hdown hlist hnew => exact hinv
  | crashInOpen created hdown hlist hopen => exact hinv.crashInOpen hdown _

lemma fifoInv_empty : FifoInv History.empty :=
  ⟨fun _ => rfl, (fun _ _ hcf => nomatch hcf), (fun _ hup => nomatch hup)⟩

/-- In every history without read errors the directory holds what was written to it, until the
key counter is exhausted. -/
theorem history_fifo {es : List Event} {h : History} (hrun : Run HistoryStep History.empty es h)
    (hreads : ∀ e ∈ es, e.ReadsOk) (hroom : h.allotted + 1 < 2 ^ 64) : FifoInv h := by
  have hguarded := hrun.guarded_of_forall hreads
  have hinv := hguarded.invariant (fun h => h.allotted + 1 < 2 ^ 64 → FifoInv h)
    (fun a e b ha hstep hb => (ha ((Nat.add_le_add_right (allotted_le_of_step hstep.2) 1).trans_lt hb)).step
      hstep.1 hstep.2 hb) (fun _ => fifoInv_empty)
  exact hinv hroom

lemma acked_eq_written {es : List Event} {h : History} (hrun : Run HistoryStep History.empty es h)
    (hbetween : ∀ e ∈ es, e.BetweenCalls) : h.acked = h.written := by
  have hguarded := hrun.guarded_of_forall hbetween
  refine hguarded.invariant (fun h => h.acked = h.written) ?_ rfl
  intro a e b ha hstep
  obtain ⟨hallowed, hstep⟩ := hstep
  cases hstep with
  | call op hup =>
    simp only [History.record, Bool.and_true]
    rw [ha]
  | crash hup => exact ha
  | crashIn op hup => exact hallowed.elim
  | opened hdown hlist hnew => exact ha
  | openFailed hdown hlist hnew => exact ha
  | crashInOpen created hdown hlist hopen => exact hallowed.elim

/-- In a sequential history `iterate_cf` yields the values of the successful appends to the
column family, each once and in the order they were appended. -/
theorem iterateCf_yields_acked {es : List Event} {h : History} {s : RocksStore} {name : String}
    (hrun : Run HistoryStep History.empty es h) (hbetween : ∀ e ∈ es, e.BetweenCalls)
    (hreads : ∀ e ∈ es, e.ReadsOk) (hroom : h.allotted < 2 ^ 64 - 1) (hup : h.process = .up s)
    (hname : name ∈ s.db) : s.iterateCf name none collect [] = (.ok (), h.acked name) := by
  have hinv := history_fifo hrun hreads (by omega)
  have hlog : ∃ log, s.toLogStore.logs name = some log := by
    obtain ⟨cf, hcf⟩ := Option.isSome_iff_exists.mp (AList.lookup_isSome.mpr hname)
    exact ⟨cf.values, Db.logs_eq_some hcf⟩
  obtain ⟨log, hlog⟩ := hlog
  have hwritten : h.written name = log := by
    rw [hinv.written, hup]
    change (s.toLogStore.logs name).getD [] = log
    rw [hlog, Option.getD_some]
  rw [iterateCf_collect hlog, acked_eq_written hrun hbetween, hwritten]

end MicewriterEngine.Proofs
