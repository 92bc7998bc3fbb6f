import MicewriterEngine.Model.FlushEngine
import MicewriterEngine.Model.GrpcServer
import MicewriterEngine.Model.LogStore
import MicewriterEngine.Proofs.StoreSteps

/-!
# From an accepted message to a row

The batches that `compile_cf_pipeline` writes are, one after the other, the decoded
records of the column family. So an accepted record becomes a row when it decodes.
-/

namespace MicewriterEngine.Proofs
open RocksStore

variable {ε : Type} (fromReader : Bytes → Except Error ε) (env : CompileEnv)

/-- The rows for some stored values: the decoded ones, in order. -/
def decodedRows (fromReader : Bytes → Except Error ε) (values : List Bytes) : List ε :=
  values.filterMap (fun v => (fromReader v).toOption)

def compiledRows (st : CompileState ε) : List ε := st.written.flatten ++ st.events

lemma decodedRows_cons (v : Bytes) (values : List Bytes) :
    decodedRows fromReader (v :: values) = decodedRows fromReader [v] ++ decodedRows fromReader values := by
  rw [decodedRows, decodedRows, decodedRows, ← List.filterMap_append, List.singleton_append]

lemma flushEventsToWriter_cases (st : CompileState ε) :
    (∃ e st', flushEventsToWriter env st = (.error e, st')) ∨
      ∃ st', flushEventsToWriter env st = (.ok (), st') ∧ st'.events = [] ∧ st'.ioErr = st.ioErr ∧
        st'.written = st.written ++ [st.events] := by
  unfold flushEventsToWriter
  dsimp only
  split
  · exact Or.inl ⟨_, _, rfl⟩
  · split
    · exact Or.inl ⟨_, _, rfl⟩
    · exact Or.inr ⟨_, rfl, rfl, rfl, rfl⟩

lemma pushEvent_rows (st : CompileState ε) (v : Bytes) (hst : st.ioErr = none) :
    (pushEvent fromReader st v).ioErr = none ∧
      compiledRows (pushEvent fromReader st v) = compiledRows st ++ decodedRows fromReader [v] := by
  unfold pushEvent
  cases hv : fromReader v with
  | ok event => exact ⟨hst, by simp [compiledRows, decodedRows, hv, Except.toOption]⟩
  | error e => exact ⟨hst, by simp [decodedRows, hv, Except.toOption]⟩

lemma compileRecord_cases (st : CompileState ε) (v : Bytes) (hst : st.ioErr = none) :
    (∃ e e' st', compileRecord fromReader env st v = (.error e, st') ∧ st'.ioErr = some e') ∨
      ∃ st', compileRecord fromReader env st v = (.ok (), st') ∧ st'.ioErr = none ∧
        compiledRows st' = compiledRows st ++ decodedRows fromReader [v] := by
  obtain ⟨herr, hrows⟩ := pushEvent_rows fromReader st v hst
  unfold compileRecord
  dsimp only
  split
  · rcases flushEventsToWriter_cases env (pushEvent fromReader st v) with
      ⟨e, st', hfail⟩ | ⟨st', hok, hevents, herr', hwritten⟩
    · rw [hfail]
      exact Or.inl ⟨_, e, _, rfl, rfl⟩
    · rw [hok]
      refine Or.inr ⟨st', rfl, herr'.trans herr, ?_⟩
      rw [← hrows, compiledRows, compiledRows, hevents, hwritten]
      simp
  · exact Or.inr ⟨_, rfl, herr, hrows⟩

lemma iterateItems_compileRecord (values : List Bytes) (st : CompileState ε) (hst : st.ioErr = none) :
    let st' := (iterateItems (compileRecord fromReader env) (values.map .ok) st).2
    (∃ e, st'.ioErr = some e) ∨
      st'.ioErr = none ∧ compiledRows st' = compiledRows st ++ decodedRows fromReader values := by
  induction values generalizing st with
  | nil => exact Or.inr ⟨hst, by simp [iterateItems, decodedRows]⟩
  | cons v values ih =>
    rw [List.map_cons, iterateItems]
    rcases compileRecord_cases fromReader env st v hst with
      ⟨e, e', st', hfail, herr⟩ | ⟨st', hok, herr, hrows⟩
    · rw [hfail]
      exact Or.inl ⟨e', herr⟩
    · rw [hok]
      have hrest := ih st' herr
      rw [hrows, List.append_assoc, ← decodedRows_cons fromReader] at hrest
      exact hrest

/-- Without a read error, the data files of a successful compilation hold exactly the decoded
records of the column family, in the order of their keys. -/
theorem compileCfPipeline_rows {fromReader : Bytes → Except Error ε} {env : CompileEnv} {store : RocksStore}
    {name : String} {log : List Bytes} {files : List (List ε)} (hlog : store.toLogStore.logs name = some log)
    (hread : env.readErrorAt = none) (hok : compileCfPipeline fromReader store name env = .ok files) :
    files.flatten = decodedRows fromReader log := by
  simp only [RocksStore.toLogStore, Db.logs, Option.map_eq_some_iff] at hlog
  obtain ⟨cf, hcf, rfl⟩ := hlog
  rw [compileCfPipeline_eq] at hok
  split at hok
  · cases hok
  · simp only [iterateCf, Db.cfHandle, hcf, hread, iteratorStart] at hok
    have hstart : compiledRows (CompileState.start : CompileState ε) = [] := rfl
    rcases iterateItems_compileRecord fromReader env cf.values CompileState.start rfl with
      ⟨e, herr⟩ | ⟨herr, hrows⟩
    · rw [herr] at hok
      cases hok
    · rw [hstart, List.nil_append] at hrows
      rw [herr] at hok
      dsimp only at hok
      have hclose : ∀ {st : CompileState ε}, closeWriter env st = .ok files → files = st.written := by
        intro st h
        unfold closeWriter at h
        split at h
        · cases h
          rfl
        · cases h
      split at hok
      · rename_i hempty
        rw [hclose hok, ← hrows, compiledRows, List.isEmpty_iff.mp hempty, List.append_nil]
      · rcases flushEventsToWriter_cases env
          (iterateItems (compileRecord fromReader env) (cf.values.map .ok) CompileState.start).2 with
          ⟨e, st', hfail⟩ | ⟨st', hflush, hevents, -, hwritten⟩
        · rw [hfail] at hok
          cases hok
        · rw [hflush] at hok
          rw [hclose hok, hwritten, ← hrows, compiledRows]
          simp

/-- The record of an accepted message is in the column family that is active. -/
theorem accepted_record_stored {store : RocksStore} {expectedTable : String} {payload : Bytes} {writeOk : Bool}
    (haccepted : (ingestMessage store expectedTable payload writeOk).1.ok = true) :
    ∃ record, checkFrame expectedTable payload = .ok record ∧
      ∃ log, (ingestMessage store expectedTable payload writeOk).2.2.toLogStore.logs store.activeCf = some log ∧
        record ∈ log := by
  unfold ingestMessage at haccepted ⊢
  cases hframe : checkFrame expectedTable payload with
  | error message =>
    rw [hframe] at haccepted
    cases haccepted
  | ok record =>
    rw [hframe] at haccepted
    dsimp only at haccepted ⊢
    refine ⟨record, rfl, ?_⟩
    rcases appendBatch_cases store [record] writeOk with
      ⟨hnil, -⟩ | ⟨-, e, he⟩ | ⟨-, s', hs', -⟩ | ⟨cf, full, s', hcf, hs', hwrote⟩
    · cases hnil
    · rw [he] at haccepted
      cases haccepted
    · rw [hs'] at haccepted
      cases haccepted
    · rw [hs']
      have hcf' : s'.db.lookup store.activeCf = some (cf.insert (Lib.beBytes 8 store.counter) record) := by
        rw [hwrote.db, Db.writeCf, AList.lookup_insert]
        rfl
      exact ⟨_, Db.logs_eq_some hcf', Lib.SortedMap.mem_values_insert _ _ _⟩

/-- What an accepted message promises: its record is stored, and when the column family that holds
it is compiled without a read error and the record decodes, either the compilation fails and the
flush task keeps the column family, or the record is a row of the data files. -/
theorem accepted_record_compiled (fromReader : Bytes → Except Error ε) {store : RocksStore}
    {expectedTable : String} {payload : Bytes} {writeOk : Bool}
    (haccepted : (ingestMessage store expectedTable payload writeOk).1.ok = true) :
    ∃ record, checkFrame expectedTable payload = .ok record ∧
      (∃ log, (ingestMessage store expectedTable payload writeOk).2.2.toLogStore.logs store.activeCf = some log ∧
        record ∈ log) ∧
      ∀ (later : RocksStore) (name : String) (log : List Bytes) (env : CompileEnv) (event : ε),
        later.toLogStore.logs name = some log → record ∈ log → env.readErrorAt = none →
        fromReader record = .ok event →
        (∃ e, compileCfPipeline fromReader later name env = .error e ∧
          ∀ (tableName : String) (sent : List (CommitRequest (List ε))) (sendOk : Bool),
            flushTask tableName later sent name (.compiled (.error e) sendOk) =
              (.ok (), later.retainFrozenCf name, sent)) ∨
        ∃ files, compileCfPipeline fromReader later name env = .ok files ∧
          files.flatten = decodedRows fromReader log ∧ event ∈ files.flatten := by
  obtain ⟨record, hframe, hstored⟩ := accepted_record_stored haccepted
  refine ⟨record, hframe, hstored, ?_⟩
  intro later name log env event hlog hmem hread hdecode
  cases hcompiled : compileCfPipeline fromReader later name env with
  | error e => exact Or.inl ⟨e, rfl, fun _ _ _ => rfl⟩
  | ok files =>
    have hrows := compileCfPipeline_rows hlog hread hcompiled
    refine Or.inr ⟨files, rfl, hrows, ?_⟩
    rw [hrows, decodedRows, List.mem_filterMap]
    exact ⟨record, hmem, by rw [hdecode]; rfl⟩

/-- A reader of one leading byte, which fails on an empty record. -/
def readByte : Bytes → Except Error UInt8
  | [] => .error .external
  | b :: _ => .ok b

def calmEnv : CompileEnv := ⟨true, none, fun _ => true, fun _ => true, true⟩

/-- A message with two concatenated values becomes the row of the leading one. -/
theorem accepted_record_compiled_readByte :
    ∃ files, compileCfPipeline readByte (ingestMessage freshStore "t" [0, 1, 116, 5, 6] true).2.2 "active" calmEnv =
      .ok files ∧ 5 ∈ files.flatten := by
  have haccepted : (ingestMessage freshStore "t" [0, 1, 116, 5, 6] true).1.ok = true := by decide
  obtain ⟨record, hframe, ⟨log, hlog, hmem⟩, hkept⟩ := accepted_record_compiled readByte haccepted
  have hrecord : checkFrame "t" [0, 1, 116, 5, 6] = .ok [5, 6] := by decide
  rw [hrecord, Except.ok.injEq] at hframe
  subst hframe
  rcases hkept _ "active" log calmEnv 5 hlog hmem rfl rfl with ⟨e, herr, -⟩ | ⟨files, hok, -, hrow⟩
  · cases herr
  · exact ⟨files, hok, hrow⟩

/-- A message with an empty record is accepted, and its compilation succeeds without a row for it. -/
theorem empty_record_skipped :
    ¬∀ (ε : Type) (fromReader : Bytes → Except Error ε) (store : RocksStore) (expectedTable : String)
      (payload : Bytes) (writeOk : Bool), (ingestMessage store expectedTable payload writeOk).1.ok = true →
      ∃ record, checkFrame expectedTable payload = .ok record ∧
        ∀ (later : RocksStore) (name : String) (log : List Bytes) (env : CompileEnv),
          later.toLogStore.logs name = some log → record ∈ log →
          (∃ e, compileCfPipeline fromReader later name env = .error e) ∨
          ∃ files event, compileCfPipeline fromReader later name env = .ok files ∧
            fromReader record = .ok event ∧ event ∈ files.flatten := by
  intro h
  have haccepted : (ingestMessage freshStore "t" [0, 1, 116] true).1.ok = true := by decide
  obtain ⟨record, hframe, hkept⟩ := h UInt8 readByte freshStore "t" [0, 1, 116] true haccepted
  obtain ⟨stored, hstored, log, hlog, hmem⟩ := accepted_record_stored haccepted
  have hrecord : checkFrame "t" [0, 1, 116] = .ok [] := by decide
  rw [hrecord, Except.ok.injEq] at hframe hstored
  subst hframe hstored
  rcases hkept _ "active" log calmEnv hlog hmem with ⟨e, herr⟩ | ⟨files, event, -, hdecode, -⟩
  · cases herr
  · cases hdecode

end MicewriterEngine.Proofs
