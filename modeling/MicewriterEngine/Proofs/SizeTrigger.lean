import MicewriterEngine.Proofs.CrashRecovery

/-!
# The size trigger

`append_batch` reports a full column family when the bytes that the process has counted
reach the limit. The count is that of the stored bytes, except after an open that takes
up a column family with bytes in it: there it starts at zero.
-/

namespace MicewriterEngine.Proofs
open Lib RocksStore

/-- The total length of the stored values. -/
def storedBytes (cf : ColumnFamily) : ℕ := cf.values.flatten.length

/-- What an append of a non-empty batch reports is whether the stored bytes reach the limit. -/
def TriggerExact (s : RocksStore) (values : List Bytes) (writeOk : Bool) : Prop :=
  values ≠ [] → ∀ full, (s.appendBatch values writeOk).1 = .ok full →
    ∃ cf, (s.appendBatch values writeOk).2.db.lookup s.activeCf = some cf ∧
      (full = true ↔ s.activeCfSizeLimit ≤ storedBytes cf)

/-- The column family that an open takes up stores no bytes, and neither the key counter nor the
count of the bytes leaves `u64` in an append. -/
def CountsBytes (h : History) : Event → Prop
  | .openStore env _ _ => ∀ disk, h.process = .down disk → ∀ cf,
    (disk.getD ∅).lookup (chooseActive (env.listCf.getD [initialCf])) = some cf → storedBytes cf = 0
  | .call (.appendBatch values _) => ∀ s, h.process = .up s →
    s.counter + values.length < 2 ^ 64 ∧ s.activeCfBytes + values.flatten.length < 2 ^ 64
  | _ => True

/-- Values other than empty ones are under keys below `bound`. -/
def BytesBelow (cf : ColumnFamily) (bound : ℕ) : Prop :=
  ∀ e ∈ cf.entries, e.2 ≠ [] → ∃ id < bound, e.1 = beBytes 8 id

/-- The count of the process is that of the active column family. -/
def Counted (s : RocksStore) : Prop :=
  ∀ cf, s.db.lookup s.activeCf = some cf → s.activeCfBytes = storedBytes cf ∧ BytesBelow cf s.counter

lemma BytesBelow.mono {cf : ColumnFamily} {a b : ℕ} (h : BytesBelow cf a) (hab : a ≤ b) : BytesBelow cf b := by
  intro e he hne
  obtain ⟨id, hid, heq⟩ := h e he hne
  exact ⟨id, hid.trans_le hab, heq⟩

lemma bytesBelow_of_storedBytes {cf : ColumnFamily} (h : storedBytes cf = 0) (bound : ℕ) : BytesBelow cf bound := by
  intro e he hne
  have hnil := List.flatten_eq_nil_iff.mp (List.length_eq_zero_iff.mp h) e.2 (List.mem_map_of_mem he)
  exact absurd hnil hne

lemma storedBytes_insert {cf : ColumnFamily} {first : ℕ} (h : BytesBelow cf first) (hroom : first < 2 ^ 64)
    (v : Bytes) :
    storedBytes (cf.insert (beBytes 8 first) v) = storedBytes cf + v.length ∧
      BytesBelow (cf.insert (beBytes 8 first) v) (first + 1) := by
  refine ⟨length_flatten_insertEntry fun w hw => ?_, fun e he hne => ?_⟩
  · by_contra hne
    obtain ⟨id, hid, heq⟩ := h _ hw hne
    rw [beBytes_eight_eq_iff] at heq
    unfold u64 at heq
    omega
  · rcases (cf.mem_entries_insert_iff (j := e.1) (w := e.2)).mp he with ⟨hkey, -⟩ | ⟨-, hold⟩
    · exact ⟨first, Nat.lt_succ_self first, hkey⟩
    · exact h.mono (Nat.le_succ first) e hold hne

lemma storedBytes_insertMany (values : List Bytes) {cf : ColumnFamily} {first : ℕ} (h : BytesBelow cf first)
    (hroom : first + values.length < 2 ^ 64) :
    storedBytes (cf.insertMany (allot first values)) = storedBytes cf + values.flatten.length ∧
      BytesBelow (cf.insertMany (allot first values)) (first + values.length) := by
  induction values generalizing cf first with
  | nil => exact ⟨rfl, h⟩
  | cons v values ih =>
    rw [List.length_cons] at hroom
    obtain ⟨hbytes, hbelow⟩ := storedBytes_insert h (by omega) v
    obtain ⟨hrest, hrestBelow⟩ := ih hbelow (by omega)
    have hallot : allot first (v :: values) = (beBytes 8 first, v) :: allot (first + 1) values := by
      simp [allot, List.range'_succ]
    rw [hallot, SortedMap.insertMany_cons, hrest, hbytes, List.flatten_cons, List.length_append, List.length_cons]
    exact ⟨by omega, hrestBelow.mono (by omega)⟩

lemma foldl_putCf_batchBytes (values : List Bytes) (b : BatchLoop)
    (h : b.batchBytes + values.flatten.length < 2 ^ 64) :
    (values.foldl BatchLoop.putCf b).batchBytes = b.batchBytes + values.flatten.length := by
  induction values generalizing b with
  | nil => rfl
  | cons v values ih =>
    rw [List.flatten_cons, List.length_append] at h ⊢
    have hput : (b.putCf v).batchBytes = b.batchBytes + v.length := by
      have hv : u64 v.length = v.length := Nat.mod_eq_of_lt (by omega)
      simp only [BatchLoop.putCf, hv]
      exact Nat.mod_eq_of_lt (by omega)
    rw [List.foldl_cons, ih (b.putCf v) (by omega), hput, Nat.add_assoc]

variable {h h' : History} {s : RocksStore} {values : List Bytes} {writeOk : Bool}

lemma Counted.writeBatch {cf : ColumnFamily} (hcount : Counted s) (hcf : s.db.lookup s.activeCf = some cf)
    (hroom : s.counter + values.length < 2 ^ 64) (hfit : s.activeCfBytes + values.flatten.length < 2 ^ 64) :
    Counted (s.writeBatch s.activeCf values writeOk).2 ∧
      ∀ full, (s.writeBatch s.activeCf values writeOk).1 = .ok full →
        ∃ cf', (s.writeBatch s.activeCf values writeOk).2.db.lookup s.activeCf = some cf' ∧
          (full = true ↔ s.activeCfSizeLimit ≤ storedBytes cf') := by
  obtain ⟨hbytes, hbelow⟩ := hcount cf hcf
  obtain ⟨hcounter, hbatch⟩ := foldl_putCf values ⟨s.counter, 0, []⟩ hroom
  have hbatchBytes := foldl_putCf_batchBytes values ⟨s.counter, 0, []⟩ (by dsimp only; omega)
  obtain ⟨hstored, hstoredBelow⟩ := storedBytes_insertMany values hbelow hroom
  dsimp only at hcounter hbatch hbatchBytes
  simp only [RocksStore.writeBatch, Db.cfHandle, hcf]
  cases writeOk with
  | false =>
    simp only [Bool.false_eq_true, ite_false, hcounter]
    refine ⟨fun cf' hcf' => ?_, fun full hfull => by cases hfull⟩
    rw [hcf, Option.some.injEq] at hcf'
    subst hcf'
    exact ⟨hbytes, hbelow.mono (Nat.le_add_right _ _)⟩
  | true =>
    have hnewSize : u64 (s.activeCfBytes + (0 + values.flatten.length)) =
        storedBytes (cf.insertMany (allot s.counter values)) := by
      rw [hstored, ← hbytes, Nat.zero_add]
      exact Nat.mod_eq_of_lt hfit
    simp only [ite_true, hcounter, hbatch, hbatchBytes, List.nil_append, hnewSize, Db.writeCf, AList.lookup_insert]
    refine ⟨fun cf' hcf' => ?_, fun full hfull => ⟨_, rfl, ?_⟩⟩
    · rw [AList.lookup_insert, Option.some.injEq] at hcf'
      subst hcf'
      exact ⟨rfl, hstoredBelow⟩
    · rw [← Except.ok.inj hfull, decide_eq_true_eq]

/-- A counted store stays counted in an append, and what the append reports is exact. -/
lemma Counted.appendBatch (hcount : Counted s) (hroom : s.counter + values.length < 2 ^ 64)
    (hfit : s.activeCfBytes + values.flatten.length < 2 ^ 64) :
    Counted (s.appendBatch values writeOk).2 ∧ TriggerExact s values writeOk := by
  unfold TriggerExact RocksStore.appendBatch
  cases hempty : values.isEmpty with
  | true => exact ⟨hcount, fun hne => absurd (List.isEmpty_iff.mp hempty) hne⟩
  | false =>
    simp only [Bool.false_eq_true, ite_false]
    cases hcf : s.db.lookup s.activeCf with
    | none =>
      simp only [RocksStore.writeBatch, Db.cfHandle, hcf]
      exact ⟨hcount, fun _ full hfull => by cases hfull⟩
    | some cf =>
      obtain ⟨hafter, hexact⟩ := hcount.writeBatch hcf hroom hfit
      exact ⟨hafter, fun _ => hexact⟩

/-- The new column family is empty, and so is the new count. -/
lemma Counted.rotate (hcount : Counted s) (ts : ℕ) (createOk : Bool) (draw : ℕ) :
    Counted (s.rotate ts createOk draw).2 := by
  rcases rotate_cases s ts createOk draw with herr | ⟨s', hs', hr⟩
  · rw [herr]
    exact hcount
  · have hbytes : s'.activeCfBytes = 0 := by
      unfold RocksStore.rotate at hs'
      dsimp only at hs'
      split at hs'
      · cases hs'
      · cases hs'
        rfl
    rw [hs']
    intro cf hcf
    rw [hr.db, hr.activeCf, AList.lookup_insert, Option.some.injEq] at hcf
    rw [← hcf]
    exact ⟨hbytes, bytesBelow_of_storedBytes rfl _⟩

lemma Counted.dropFrozenCf (hcount : Counted s) (name : String) (dropOk : Bool) :
    Counted (s.dropFrozenCf name dropOk).2 := by
  rcases dropFrozenCf_cases s name dropOk with herr | ⟨s', hs', hd⟩
  · rw [herr]
    exact hcount
  · have hbytes : s'.activeCfBytes = s.activeCfBytes := by
      unfold RocksStore.dropFrozenCf at hs'
      split at hs'
      · cases hs'
      · dsimp only at hs'
        split at hs' <;> cases hs' <;> rfl
    rw [hs']
    intro cf hcf
    rw [hd.db, hd.activeCf] at hcf
    by_cases hname : s.activeCf = name
    · rw [hname, AList.lookup_erase] at hcf
      cases hcf
    · rw [AList.lookup_erase_ne hname] at hcf
      rw [hbytes, hd.counter]
      exact hcount cf hcf

lemma Counted.perform (hcount : Counted s) (op : Op)
    (hfits : ∀ values writeOk, op = .appendBatch values writeOk →
      s.counter + values.length < 2 ^ 64 ∧ s.activeCfBytes + values.flatten.length < 2 ^ 64) :
    Counted (s.perform op).2 := by
  cases op with
  | appendBatch values writeOk =>
    obtain ⟨hroom, hfit⟩ := hfits values writeOk rfl
    exact (hcount.appendBatch hroom hfit).1
  | rotate ts createOk draw => exact hcount.rotate ts createOk draw
  | dropFrozenCf name dropOk => exact hcount.dropFrozenCf name dropOk

/-- An open that takes up no bytes counts them right. -/
lemma counted_of_new {disk : Option Db} {env : OpenEnv} {flushSizeBytes flushSizeJitterBytes : ℕ}
    (hnew : new disk env flushSizeBytes flushSizeJitterBytes = .ok s)
    (hempty : ∀ cf, (disk.getD ∅).lookup (chooseActive (env.listCf.getD [initialCf])) = some cf →
      storedBytes cf = 0) :
    Counted s := by
  obtain ⟨hopen, hactive, -⟩ := new_ok hnew
  have hbytes : s.activeCfBytes = 0 := by
    unfold new at hnew
    dsimp only at hnew
    split at hnew
    · cases hnew
    · cases hnew
      rfl
  intro cf hcf
  have hstored : storedBytes cf = 0 := by
    rw [(Db.openCfDescriptors_some hopen).2, hactive] at hcf
    split at hcf
    · exact hempty cf hcf
    · split at hcf
      · cases hcf
        rfl
      · cases hcf
  exact ⟨hbytes.trans hstored.symm, bytesBelow_of_storedBytes hstored _⟩

/-- The open store is counted. -/
def CountedInv (h : History) : Prop := ∀ s, h.process = .up s → Counted s

lemma CountedInv.step {e : Event} (hinv : CountedInv h) (hstep : Guarded HistoryStep CountsBytes h e h') :
    CountedInv h' := by
  obtain ⟨hcounts, hstep⟩ := hstep
  cases hstep with
  | call op hup =>
    rintro _ ⟨⟩
    refine (hinv _ hup).perform op ?_
    rintro values writeOk rfl
    exact hcounts _ hup
  | crash hup => rintro _ ⟨⟩
  | crashIn op hup => rintro _ ⟨⟩
  | opened hdown hlist hnew =>
    rintro _ ⟨⟩
    exact counted_of_new hnew (hcounts _ hdown)
  | openFailed hdown hlist hnew => exact hinv
  | crashInOpen created hdown hlist hopen => rintro _ ⟨⟩

/-- As long as no open takes up a column family with bytes in it, every append in a history on one
database reports a full column family exactly when the stored bytes reach the limit. -/
theorem size_trigger_exact {disk : Option Db} {es : List Event} (hdown : h.process = .down disk)
    (hrun : Run (Guarded HistoryStep CountsBytes) h es h') (hup : h'.process = .up s)
    (hcounts : CountsBytes h' (.call (.appendBatch values writeOk))) : TriggerExact s values writeOk := by
  have hstart : CountedInv h := by
    intro s hs
    rw [hdown] at hs
    cases hs
  have hcounted := hrun.invariant CountedInv (fun _ _ _ => CountedInv.step) hstart
  obtain ⟨hroom, hfit⟩ := hcounts s hup
  exact ((hcounted s hup).appendBatch hroom hfit).2

/-- One record, and a rotation after it. -/
def rotatedDb : Db := ((freshStore.appendBatch [[1]] true).2.rotate 7 true 0).2.db

/-- A reopen after the rotation takes up the empty column family. -/
theorem size_trigger_exact_reopen :
    ∃ s, new (some rotatedDb) ⟨some ["active_7", "active", "default"], true, true, 0⟩ 0 0 = .ok s ∧
      TriggerExact s [[1], [2]] true := by
  have hempty : CountsBytes ⟨.down (some rotatedDb), fun _ => [], fun _ => [], 0⟩
      (.openStore ⟨some ["active_7", "active", "default"], true, true, 0⟩ 0 0) := by
    rintro _ ⟨⟩ cf hcf
    have hcf' : some SortedMap.empty = some cf := hcf
    cases hcf'
    rfl
  have hrun := (.cons ⟨hempty, .opened rfl (listsCf_keys rfl) rfl⟩ (.nil _) :
    Run (Guarded HistoryStep CountsBytes) _
      [.openStore ⟨some ["active_7", "active", "default"], true, true, 0⟩ 0 0] _)
  refine ⟨_, rfl, size_trigger_exact rfl hrun rfl ?_⟩
  rintro _ ⟨⟩
  exact ⟨by decide, by decide⟩

/-- An open that takes up a mebibyte counts from zero, and the next append does not report it. -/
theorem reopened_bytes_not_counted :
    ¬∀ (h h' : History) (es : List Event) (disk : Option Db) (s : RocksStore) (values : List Bytes) (writeOk : Bool),
      h.process = .down disk → Run HistoryStep h es h' → h'.process = .up s → TriggerExact s values writeOk := by
  intro hall
  obtain ⟨v, hv⟩ : ∃ v : Bytes, v.length = 1024 * 1024 := ⟨_, List.length_replicate (a := 0)⟩
  have hrun := (.cons (.opened rfl (listsCf_none none) new_freshStore) (.cons (.call _ rfl) (.cons (.crash rfl)
    (.cons (.opened rfl (listsCf_keys rfl) rfl) (.nil _)))) :
      Run HistoryStep History.empty [.openStore ⟨none, true, true, 0⟩ 0 0, .call (.appendBatch [v] true), .crash,
        .openStore ⟨some ["active", "default"], true, true, 0⟩ 0 0] _)
  have hfifo := history_fifo (hrun.snoc (.call (.appendBatch [[]] true) rfl)) (by simp [Event.ReadsOk])
    (show 2 + 1 < 2 ^ 64 by decide)
  obtain ⟨cf, hcf, hfull⟩ := hall _ _ _ _ _ [[]] true rfl hrun rfl (List.cons_ne_nil _ _) false rfl
  have hvalues : cf.values = [v, []] := by
    have hwritten : [v, []] = _ := hfifo.written "active"
    have hlogs := Db.logs_eq_some hcf
    exact (hwritten.trans (congrArg (fun log => log.getD []) hlogs)).symm
  have hstored : storedBytes cf = 1024 * 1024 := by
    rw [storedBytes, hvalues, ← hv]
    simp
  exact absurd (hfull.mpr hstored.ge) Bool.false_ne_true

end MicewriterEngine.Proofs
