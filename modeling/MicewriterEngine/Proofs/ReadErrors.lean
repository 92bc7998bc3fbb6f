import MicewriterEngine.Proofs.Compile

/-!
# Read errors during a compilation

`compile_cf_pipeline` writes its events in chunks of ten thousand, so how far the writer
has to work is determined by how many records the iteration yields. The end of the
iteration itself is not looked at: a read error goes unnoticed unless the writer fails.
-/

namespace MicewriterEngine.Proofs
open RocksStore

variable {ε : Type} {fromReader : Bytes → Except Error ε} {env : CompileEnv}

/-- The `i`-th call of `flush_events_to_writer` succeeds. -/
def FlushOk (env : CompileEnv) (i : ℕ) : Prop := env.encodeOk i ∧ env.writeOk i

/-- The writer is built and closed, and the chunks of `n` events are all written. -/
def WriterWorks (env : CompileEnv) (n : ℕ) : Prop :=
  env.buildOk ∧ (∀ i < (n + 9999) / 10000, FlushOk env i) ∧ env.closeOk

/-- The records that the iteration yields, up to a read error. -/
def yielded (store : RocksStore) (name : String) (env : CompileEnv) : List Bytes :=
  match env.readErrorAt with
  | none => (store.toLogStore.logs name).getD []
  | some i => ((store.toLogStore.logs name).getD []).take i

/-- The column family exists and no step of the iterator yields an error. -/
def ReadsAll (store : RocksStore) (name : String) (env : CompileEnv) : Prop :=
  store.toLogStore.logs name ≠ none ∧ env.readErrorAt = none

/-- A successful compilation has one row for each record of the column family, and a failed lookup
or read makes the compilation fail. -/
structure ReadsComplete (fromReader : Bytes → Except Error ε) (store : RocksStore) (name : String)
    (env : CompileEnv) : Prop where
  rows : ∀ files, compileCfPipeline fromReader store name env = .ok files →
    ∃ log, store.toLogStore.logs name = some log ∧
      List.Forall₂ (fun v event => fromReader v = .ok event) log files.flatten
  fails : ¬ReadsAll store name env → ∃ e, compileCfPipeline fromReader store name env = .error e

lemma flushEventsToWriter_of_ok {st : CompileState ε} (h : FlushOk env st.flushes) :
    flushEventsToWriter env st = (.ok (),
      { st with flushes := st.flushes + 1, written := st.written ++ [st.events], events := [] }) := by
  simp [flushEventsToWriter, h.1, h.2]

lemma flushEventsToWriter_of_not_ok {st : CompileState ε} (h : ¬FlushOk env st.flushes) :
    ∃ e, flushEventsToWriter env st = (.error e, { st with flushes := st.flushes + 1 }) := by
  unfold flushEventsToWriter
  dsimp only
  split
  · exact ⟨_, rfl⟩
  · split
    · exact ⟨_, rfl⟩
    · rename_i hencode hwrite
      exact absurd ⟨by simpa using hencode, by simpa using hwrite⟩ h

variable (env) in
/-- A record that decodes is one more event, and the ten-thousandth makes a chunk. -/
lemma compileRecord_chunk {st : CompileState ε} {v : Bytes} (hv : ∃ event, fromReader v = .ok event)
    (hst : st.ioErr = none) (hevents : st.events.length < 10000) :
    (∃ st', compileRecord fromReader env st v = (.ok (), st') ∧ st'.ioErr = none ∧
      st'.events.length = (st.events.length + 1) % 10000 ∧
      st'.flushes = st.flushes + (st.events.length + 1) / 10000 ∧
      (st.events.length + 1 = 10000 → FlushOk env st.flushes)) ∨
    st.events.length + 1 = 10000 ∧ ¬FlushOk env st.flushes ∧
      ∃ e e' st', compileRecord fromReader env st v = (.error e, st') ∧ st'.ioErr = some e' := by
  obtain ⟨event, hv⟩ := hv
  have hpush : pushEvent fromReader st v = { st with events := st.events ++ [event] } := by simp [pushEvent, hv]
  have hlength : (pushEvent fromReader st v).events.length = st.events.length + 1 := by simp [hpush]
  have hflushes : (pushEvent fromReader st v).flushes = st.flushes := by rw [hpush]
  unfold compileRecord
  dsimp only
  by_cases hfull : 10000 ≤ (pushEvent fromReader st v).events.length
  · have heq : st.events.length + 1 = 10000 := by omega
    rw [if_pos hfull, heq]
    by_cases hok : FlushOk env st.flushes
    · rw [flushEventsToWriter_of_ok (hflushes ▸ hok), hpush]
      exact Or.inl ⟨_, rfl, hst, rfl, rfl, fun _ => hok⟩
    · obtain ⟨e, hfail⟩ := flushEventsToWriter_of_not_ok (hflushes ▸ hok)
      rw [hfail]
      exact Or.inr ⟨rfl, hok, _, e, _, rfl, rfl⟩
  · rw [if_neg hfull]
    refine Or.inl ⟨_, rfl, by rw [hpush]; exact hst, ?_, ?_, fun heq => absurd heq (by omega)⟩
    · rw [hlength, Nat.mod_eq_of_lt (by omega)]
    · rw [hflushes, Nat.div_eq_of_lt (by omega), Nat.add_zero]

variable (env) in
/-- The iteration over records that decode writes the full chunks, unless one of them fails. What
the iterator yields after the records is none or an error. -/
lemma iterateItems_chunks (values : List Bytes) (rest : List (Except Error Bytes))
    (hrest : rest = [] ∨ ∃ e, rest = [.error e]) (hdecode : ∀ v ∈ values, ∃ event, fromReader v = .ok event)
    (st : CompileState ε) (hst : st.ioErr = none) (hevents : st.events.length < 10000) :
    let st' := (iterateItems (compileRecord fromReader env) (values.map .ok ++ rest) st).2
    let total := st.events.length + values.length
    ((∀ i, st.flushes ≤ i → i < st.flushes + total / 10000 → FlushOk env i) ∧ st'.ioErr = none ∧
      st'.events.length = total % 10000 ∧ st'.flushes = st.flushes + total / 10000) ∨
    (∃ i, st.flushes ≤ i ∧ i < st.flushes + total / 10000 ∧ ¬FlushOk env i) ∧ ∃ e, st'.ioErr = some e := by
  induction values generalizing st with
  | nil =>
    have hsame : (iterateItems (compileRecord fromReader env) ([] ++ rest) st).2 = st := by
      rcases hrest with rfl | ⟨e, rfl⟩
      · rfl
      · rfl
    dsimp only
    rw [List.map_nil, hsame, List.length_nil, Nat.add_zero, Nat.div_eq_of_lt hevents, Nat.mod_eq_of_lt hevents]
    exact Or.inl ⟨fun i hle hlt => by omega, hst, rfl, rfl⟩
  | cons v values ih =>
    have hvalues := fun u hu => hdecode u (List.mem_cons_of_mem v hu)
    dsimp only
    rw [List.map_cons, List.cons_append, iterateItems, List.length_cons]
    rcases compileRecord_chunk env (hdecode v List.mem_cons_self) hst hevents with
      ⟨st', hok, herr, hlength, hflushes, hchunk⟩ | ⟨heq, hfail, e, e', st', hrecord, herr⟩
    · rw [hok]
      dsimp only
      have hlt : st'.events.length < 10000 := by omega
      rcases ih hvalues st' herr hlt with ⟨hall, herr', hlength', hflushes'⟩ | ⟨⟨i, hle, hlt', hbad⟩, e, herr'⟩
      · refine Or.inl ⟨fun i hle hlt' => ?_, herr', by omega, by omega⟩
        by_cases hfirst : i < st'.flushes
        · have hi : i = st.flushes := by omega
          exact hi ▸ hchunk (by omega)
        · exact hall i (by omega) (by omega)
      · exact Or.inr ⟨⟨i, by omega, by omega, hbad⟩, e, herr'⟩
    · rw [hrecord]
      exact Or.inr ⟨⟨st.flushes, le_rfl, by omega, hfail⟩, e', herr⟩

lemma closeWriter_ok_iff {st : CompileState ε} : (∃ files, closeWriter env st = .ok files) ↔ env.closeOk := by
  unfold closeWriter
  split
  · rename_i h
    simp [h]
  · rename_i h
    simp [h]

lemma yielded_eq_nil {store : RocksStore} {name : String} (h : store.toLogStore.logs name = none) :
    yielded store name env = [] := by
  unfold yielded
  rw [h]
  cases env.readErrorAt with
  | none => rfl
  | some i => exact List.take_nil

lemma iterateCf_yielded {σ : Type} (store : RocksStore) (name : String) (env : CompileEnv)
    (f : σ → Bytes → Except Error Unit × σ) (acc : σ) :
    ∃ rest : List (Except Error Bytes), (rest = [] ∨ ∃ e, rest = [.error e]) ∧
      (store.iterateCf name env.readErrorAt f acc).2 =
        (iterateItems f ((yielded store name env).map .ok ++ rest) acc).2 := by
  unfold iterateCf Db.cfHandle
  cases hcf : store.db.lookup name with
  | none =>
    have hlog : store.toLogStore.logs name = none := by simp [RocksStore.toLogStore, Db.logs, hcf]
    rw [yielded_eq_nil hlog]
    exact ⟨[], Or.inl rfl, rfl⟩
  | some cf =>
    have hlog : store.toLogStore.logs name = some cf.values := Db.logs_eq_some hcf
    unfold yielded
    rw [hlog, Option.getD_some]
    cases env.readErrorAt with
    | none => exact ⟨[], Or.inl rfl, by rw [List.append_nil]; rfl⟩
    | some i => exact ⟨[.error .rocksdb], Or.inr ⟨_, rfl⟩, rfl⟩

/-- A compilation of records that decode succeeds exactly when the writer does its work. -/
theorem compileCfPipeline_ok_iff {store : RocksStore} {name : String}
    (hdecode : ∀ v ∈ yielded store name env, ∃ event, fromReader v = .ok event) :
    (∃ files, compileCfPipeline fromReader store name env = .ok files) ↔
      WriterWorks env (yielded store name env).length := by
  obtain ⟨rest, hrest, hiterate⟩ :=
    iterateCf_yielded store name env (compileRecord fromReader env) CompileState.start
  have hchunks := iterateItems_chunks env _ rest hrest hdecode CompileState.start rfl
    (by simp [CompileState.start])
  have hstart : (CompileState.start : CompileState ε).events.length + (yielded store name env).length =
      (yielded store name env).length := Nat.zero_add _
  have hflushes : (CompileState.start : CompileState ε).flushes = 0 := rfl
  rw [compileCfPipeline_eq]
  rw [hiterate]
  generalize (iterateItems (compileRecord fromReader env)
    ((yielded store name env).map .ok ++ rest) CompileState.start).2 = st at hchunks ⊢
  dsimp only at hchunks
  rw [hstart, hflushes] at hchunks
  generalize (yielded store name env).length = n at hchunks ⊢
  by_cases hbuild : env.buildOk = true
  · rw [hbuild, Bool.not_true, if_neg Bool.false_ne_true]
    dsimp only
    rcases hchunks with ⟨hall, herr, hlength, hflushed⟩ | ⟨⟨i, -, hlt, hbad⟩, e, herr⟩
    · rw [herr]
      dsimp only
      by_cases hempty : n % 10000 = 0
      · have hevents : st.events.isEmpty = true := by
          rw [List.isEmpty_iff, ← List.length_eq_zero_iff, hlength, hempty]
        rw [if_pos hevents, closeWriter_ok_iff]
        exact ⟨fun hclose => ⟨hbuild, fun i hi => hall i (Nat.zero_le i) (by omega), hclose⟩, fun h => h.2.2⟩
      · have hevents : ¬st.events.isEmpty = true := by
          rw [List.isEmpty_iff, ← List.length_eq_zero_iff, hlength]
          exact hempty
        rw [if_neg hevents]
        by_cases hlast : FlushOk env st.flushes
        · rw [flushEventsToWriter_of_ok hlast]
          dsimp only
          rw [closeWriter_ok_iff]
          refine ⟨fun hclose => ⟨hbuild, fun i hi => ?_, hclose⟩, fun h => h.2.2⟩
          by_cases hi' : i = st.flushes
          · exact hi' ▸ hlast
          · exact hall i (Nat.zero_le i) (by omega)
        · obtain ⟨e, hfail⟩ := flushEventsToWriter_of_not_ok hlast
          rw [hfail]
          refine iff_of_false (by rintro ⟨files, h⟩; cases h) (fun h => hlast (h.2.1 _ ?_))
          omega
    · rw [herr]
      refine iff_of_false (by rintro ⟨files, h⟩; cases h) (fun h => hbad (h.2.1 i ?_))
      omega
  · rw [Bool.not_eq_true] at hbuild
    rw [hbuild, Bool.not_false, if_pos rfl]
    refine iff_of_false (by rintro ⟨files, h⟩; cases h) (fun h => ?_)
    rw [WriterWorks, hbuild] at h
    exact Bool.false_ne_true h.1

lemma forall₂_decodedRows {log : List Bytes} (hdecode : ∀ v ∈ log, ∃ event, fromReader v = .ok event) :
    List.Forall₂ (fun v event => fromReader v = .ok event) log (decodedRows fromReader log) := by
  induction log with
  | nil => exact .nil
  | cons v log ih =>
    obtain ⟨event, hv⟩ := hdecode v List.mem_cons_self
    have hrow : decodedRows fromReader [v] = [event] := by simp [decodedRows, hv, Except.toOption]
    rw [decodedRows_cons, hrow, List.singleton_append]
    exact .cons hv (ih (fun u hu => hdecode u (List.mem_cons_of_mem v hu)))

/-- A compilation is complete or fails exactly when everything can be read, or the writer fails on
the part that is. -/
theorem reads_complete_iff {store : RocksStore} {name : String}
    (hdecode : ∀ log, store.toLogStore.logs name = some log → ∀ v ∈ log, ∃ event, fromReader v = .ok event) :
    ReadsComplete fromReader store name env ↔
      ReadsAll store name env ∨ ¬WriterWorks env (yielded store name env).length := by
  have hyielded : ∀ v ∈ yielded store name env, ∃ event, fromReader v = .ok event := by
    intro v hv
    cases hlog : store.toLogStore.logs name with
    | none =>
      rw [yielded_eq_nil hlog] at hv
      cases hv
    | some log =>
      refine hdecode log hlog v ?_
      unfold yielded at hv
      rw [hlog] at hv
      cases hread : env.readErrorAt with
      | none =>
        rw [hread] at hv
        exact hv
      | some i =>
        rw [hread] at hv
        exact List.mem_of_mem_take hv
  rw [← compileCfPipeline_ok_iff hyielded]
  constructor
  · intro hcomplete
    by_cases hall : ReadsAll store name env
    · exact Or.inl hall
    · obtain ⟨e, he⟩ := hcomplete.fails hall
      refine Or.inr ?_
      rintro ⟨files, hok⟩
      rw [he] at hok
      cases hok
  · rintro (⟨hsome, hread⟩ | hnever)
    · obtain ⟨log, hlog⟩ := Option.ne_none_iff_exists'.mp hsome
      refine ⟨fun files hok => ⟨log, hlog, ?_⟩, fun hnot => absurd ⟨hsome, hread⟩ hnot⟩
      rw [compileCfPipeline_rows hlog hread hok]
      exact forall₂_decodedRows (hdecode log hlog)
    · refine ⟨fun files hok => absurd ⟨files, hok⟩ hnever, fun _ => ?_⟩
      cases hcompiled : compileCfPipeline fromReader store name env with
      | error e => exact ⟨e, rfl⟩
      | ok files => exact absurd ⟨files, hcompiled⟩ hnever

lemma readByte_decodes_two (log : List Bytes)
    (hlog : (freshStore.appendBatch [[1], [2]] true).2.toLogStore.logs "active" = some log) :
    ∀ v ∈ log, ∃ event, readByte v = .ok event := by
  have htwo : (freshStore.appendBatch [[1], [2]] true).2.toLogStore.logs "active" = some [[1], [2]] := by decide
  rw [htwo, Option.some.injEq] at hlog
  subst hlog
  intro v hv
  rcases List.mem_cons.mp hv with rfl | hv
  · exact ⟨1, rfl⟩
  · cases List.mem_singleton.mp hv
    exact ⟨2, rfl⟩

/-- A column family that is read to its end. -/
theorem reads_complete_calm :
    ReadsComplete readByte (freshStore.appendBatch [[1], [2]] true).2 "active" calmEnv := by
  refine (reads_complete_iff readByte_decodes_two).mpr (Or.inl ⟨?_, rfl⟩)
  decide

/-- A read error after the first of two records leaves one row, and the compilation succeeds. -/
theorem read_error_shrinks_flush :
    ¬∀ (ε : Type) (fromReader : Bytes → Except Error ε) (store : RocksStore) (name : String) (env : CompileEnv),
      (∀ log, store.toLogStore.logs name = some log → ∀ v ∈ log, ∃ event, fromReader v = .ok event) →
      ReadsComplete fromReader store name env := by
  intro h
  have hcomplete := h UInt8 readByte (freshStore.appendBatch [[1], [2]] true).2 "active"
    { calmEnv with readErrorAt := some 1 } readByte_decodes_two
  obtain ⟨e, he⟩ := hcomplete.fails (by rintro ⟨-, hnone⟩; cases hnone)
  cases he

end MicewriterEngine.Proofs
