import MicewriterEngine.Proofs.FifoLog
import MicewriterEngine.Proofs.ReadErrors

/-!
# Chunks

`compile_cf_pipeline` keeps fewer than ten thousand events and writes all others in full
chunks, of which each is one call of `flush_events_to_writer`. The first call that fails is
the last one.
-/

namespace MicewriterEngine.Proofs
open Lib RocksStore

variable {ε : Type} {fromReader : Bytes → Except Error ε} {env : CompileEnv} {rows : List ε}
  {st : CompileState ε}

/-- The number of chunks for `n` events. -/
def chunkCount (n : ℕ) : ℕ := (n + 9999) / 10000

/-- What the compilation of a column family with the given records amounts to, without a read error. -/
structure ChunkedAsPlain (fromReader : Bytes → Except Error ε) (store : RocksStore) (name : String)
    (env : CompileEnv) (log : List Bytes) : Prop where
  unbuilt : ¬env.buildOk →
    (∃ e, compileCfPipeline fromReader store name env = .error e) ∧
      (compileCfRun fromReader store name env).2.written = []
  complete : env.buildOk → (∀ i < chunkCount (decodedRows fromReader log).length, FlushOk env i) →
    let written := (compileCfRun fromReader store name env).2.written
    (∀ batch ∈ written, batch ≠ [] ∧ batch.length ≤ 10000) ∧
      written.flatten = decodedRows fromReader log ∧
      (env.closeOk → compileCfPipeline fromReader store name env = .ok written) ∧
      (¬env.closeOk → ∃ e, compileCfPipeline fromReader store name env = .error e)
  failed : env.buildOk → ∀ k < chunkCount (decodedRows fromReader log).length,
    (∀ i < k, FlushOk env i) → ¬FlushOk env k →
    let last := (compileCfRun fromReader store name env).2
    (∃ e, compileCfPipeline fromReader store name env = .error e) ∧ last.flushes = k + 1 ∧
      last.written.length = k ∧ last.written.flatten = (decodedRows fromReader log).take (10000 * k)

/-- All calls have succeeded: the full chunks of the rows are written, and the others are kept. -/
structure Chunked (env : CompileEnv) (rows : List ε) (st : CompileState ε) : Prop where
  noErr : st.ioErr = none
  rows_eq : compiledRows st = rows
  full : ∀ batch ∈ st.written, batch.length = 10000
  kept : st.events.length < 10000
  flushes : st.flushes = st.written.length
  succeeded : ∀ i < st.written.length, FlushOk env i

/-- The last call has failed: only the chunks before it are written. -/
structure Stopped (env : CompileEnv) (rows : List ε) (st : CompileState ε) : Prop where
  full : ∀ batch ∈ st.written, batch.length = 10000
  written : st.written.flatten <+: rows
  unwritten : st.written.flatten.length < rows.length
  flushes : st.flushes = st.written.length + 1
  succeeded : ∀ i < st.written.length, FlushOk env i
  failed : ¬FlushOk env st.written.length

lemma length_flatten_of_full {batches : List (List ε)} (h : ∀ batch ∈ batches, batch.length = 10000) :
    batches.flatten.length = 10000 * batches.length := by
  induction batches with
  | nil => rfl
  | cons batch batches ih =>
    have hbatch := h batch List.mem_cons_self
    have hrest := ih fun b hb => h b (List.mem_cons_of_mem batch hb)
    rw [List.flatten_cons, List.length_append, List.length_cons, hbatch, hrest]
    omega

lemma Chunked.length_rows (h : Chunked env rows st) :
    rows.length = 10000 * st.written.length + st.events.length := by
  rw [← h.rows_eq, compiledRows, List.length_append, length_flatten_of_full h.full]

lemma Stopped.lt_chunkCount (h : Stopped env rows st) : st.written.length < chunkCount rows.length := by
  have hlt := h.unwritten
  rw [length_flatten_of_full h.full] at hlt
  unfold chunkCount
  omega

lemma Stopped.append (h : Stopped env rows st) (more : List ε) : Stopped env (rows ++ more) st where
  full := h.full
  written := h.written.trans (List.prefix_append rows more)
  unwritten := h.unwritten.trans_le (by rw [List.length_append]; omega)
  flushes := h.flushes
  succeeded := h.succeeded
  failed := h.failed

lemma pushEvent_frame (fromReader : Bytes → Except Error ε) (st : CompileState ε) (v : Bytes) :
    (pushEvent fromReader st v).written = st.written ∧ (pushEvent fromReader st v).flushes = st.flushes ∧
      (pushEvent fromReader st v).events.length ≤ st.events.length + 1 := by
  unfold pushEvent
  cases fromReader v with
  | ok event => exact ⟨rfl, rfl, by simp⟩
  | error e => exact ⟨rfl, rfl, by simp⟩

/-- A call that fails on a buffer with rows leaves the compilation stopped. -/
lemma stopped_of_not_flushOk (hrows : compiledRows st = rows) (hfull : ∀ batch ∈ st.written, batch.length = 10000)
    (hflushes : st.flushes = st.written.length) (hok : ∀ i < st.written.length, FlushOk env i)
    (hevents : st.events ≠ []) (h : ¬FlushOk env st.flushes) (ioErr : Option Error) :
    Stopped env rows { st with ioErr := ioErr, flushes := st.flushes + 1 } where
  full := hfull
  written := ⟨st.events, hrows⟩
  unwritten := by
    have hpos := List.length_pos_iff.mpr hevents
    rw [← hrows, compiledRows, List.length_append]
    dsimp only
    omega
  flushes := by rw [hflushes]
  succeeded := hok
  failed := hflushes ▸ h

variable (fromReader env) in
/-- A record is skipped or kept, and the ten-thousandth row that is kept makes a chunk. -/
lemma compileRecord_chunked (h : Chunked env rows st) (v : Bytes) :
    (∃ st', compileRecord fromReader env st v = (.ok (), st') ∧
      Chunked env (rows ++ decodedRows fromReader [v]) st') ∨
    ∃ e e' st', compileRecord fromReader env st v = (.error e, st') ∧ st'.ioErr = some e' ∧
      Stopped env (rows ++ decodedRows fromReader [v]) st' := by
  obtain ⟨herr, hrows⟩ := pushEvent_rows fromReader st v h.noErr
  rw [h.rows_eq] at hrows
  obtain ⟨hwritten, hflushes, hlength⟩ := pushEvent_frame fromReader st v
  unfold compileRecord
  dsimp only
  generalize pushEvent fromReader st v = pushed at *
  have hfull : ∀ batch ∈ pushed.written, batch.length = 10000 := hwritten ▸ h.full
  have hsame : pushed.flushes = pushed.written.length := by rw [hflushes, hwritten, h.flushes]
  have hprev : ∀ i < pushed.written.length, FlushOk env i := hwritten ▸ h.succeeded
  have hkept := h.kept
  split
  · by_cases hok : FlushOk env pushed.flushes
    · rw [flushEventsToWriter_of_ok hok]
      refine Or.inl ⟨_, rfl, herr, ?_, ?_, Nat.zero_lt_succ _, ?_, ?_⟩
      · rw [← hrows]
        simp [compiledRows]
      · intro batch hbatch
        rcases List.mem_append.mp hbatch with hold | hnew
        · exact hfull batch hold
        · rw [List.mem_singleton.mp hnew]
          omega
      · rw [List.length_append, List.length_singleton, hsame]
      · intro i hi
        rw [List.length_append, List.length_singleton] at hi
        rcases Nat.lt_succ_iff_lt_or_eq.mp hi with hlt | heq
        · exact hprev i hlt
        · rw [heq, ← hsame]
          exact hok
    · obtain ⟨e, hfail⟩ := flushEventsToWriter_of_not_ok hok
      rw [hfail]
      have hevents : pushed.events ≠ [] := List.ne_nil_of_length_pos (by omega)
      exact Or.inr ⟨_, e, _, rfl, rfl, stopped_of_not_flushOk hrows hfull hsame hprev hevents hok (some e)⟩
  · exact Or.inl ⟨pushed, rfl, herr, hrows, hfull, by omega, hsame, hprev⟩

variable (fromReader env) in
/-- The iteration keeps to the chunks until a call fails, which ends it. -/
lemma iterateItems_chunked (values : List Bytes) (h : Chunked env rows st) :
    let st' := (iterateItems (compileRecord fromReader env) (values.map .ok) st).2
    Chunked env (rows ++ decodedRows fromReader values) st' ∨
      (∃ e, st'.ioErr = some e) ∧ Stopped env (rows ++ decodedRows fromReader values) st' := by
  induction values generalizing rows st with
  | nil =>
    rw [decodedRows, List.filterMap_nil, List.append_nil]
    exact Or.inl h
  | cons v values ih =>
    rw [decodedRows_cons, ← List.append_assoc, List.map_cons, iterateItems]
    rcases compileRecord_chunked fromReader env h v with ⟨st', hok, h'⟩ | ⟨e, e', st', hfail, herr, h'⟩
    · rw [hok]
      exact ih h'
    · rw [hfail]
      exact Or.inr ⟨⟨e', herr⟩, h'.append _⟩

lemma chunked_start : Chunked env [] (CompileState.start : CompileState ε) where
  noErr := rfl
  rows_eq := rfl
  full := fun _ h => absurd h List.not_mem_nil
  kept := Nat.zero_lt_succ _
  flushes := rfl
  succeeded := fun _ h => absurd h (Nat.not_lt_zero _)

/-- All rows are written, in as many chunks as they take. -/
structure AllWritten (env : CompileEnv) (rows : List ε) (st : CompileState ε) : Prop where
  batches : ∀ batch ∈ st.written, batch ≠ [] ∧ batch.length ≤ 10000
  rows_eq : st.written.flatten = rows
  count : st.written.length = chunkCount rows.length
  succeeded : ∀ i < st.written.length, FlushOk env i

lemma Chunked.allWritten (h : Chunked env rows st) (hevents : st.events = []) : AllWritten env rows st where
  batches := by
    intro batch hbatch
    have hlength := h.full batch hbatch
    exact ⟨List.ne_nil_of_length_pos (by omega), hlength.le⟩
  rows_eq := by rw [← h.rows_eq, compiledRows, hevents, List.append_nil]
  count := by
    rw [h.length_rows, hevents, List.length_nil, chunkCount]
    omega
  succeeded := h.succeeded

/-- The partial chunk at the end. -/
lemma Chunked.allWritten_flush (h : Chunked env rows st) (hevents : st.events ≠ []) (hok : FlushOk env st.flushes) :
    AllWritten env rows
      { st with flushes := st.flushes + 1, written := st.written ++ [st.events], events := [] } where
  batches := by
    intro batch hbatch
    rcases List.mem_append.mp hbatch with hold | hnew
    · have hlength := h.full batch hold
      exact ⟨List.ne_nil_of_length_pos (by omega), hlength.le⟩
    · rw [List.mem_singleton.mp hnew]
      exact ⟨hevents, h.kept.le⟩
  rows_eq := by
    rw [← h.rows_eq]
    simp [compiledRows]
  count := by
    have hpos := List.length_pos_iff.mpr hevents
    have hkept := h.kept
    rw [h.length_rows, chunkCount, List.length_append, List.length_singleton]
    omega
  succeeded := by
    intro i hi
    rw [List.length_append, List.length_singleton] at hi
    rcases Nat.lt_succ_iff_lt_or_eq.mp hi with hlt | heq
    · exact h.succeeded i hlt
    · rw [heq, ← h.flushes]
      exact hok

/-- A compilation whose writer is built writes everything, or stops at the first call that fails. -/
lemma compileCfRun_cases (fromReader : Bytes → Except Error ε) {store : RocksStore} {name : String}
    {log : List Bytes} (hlog : store.toLogStore.logs name = some log) (hread : env.readErrorAt = none)
    (hbuild : env.buildOk) :
    let run := compileCfRun fromReader store name env
    (AllWritten env (decodedRows fromReader log) run.2 ∧ run.1 = closeWriter env run.2) ∨
      Stopped env (decodedRows fromReader log) run.2 ∧ ∃ e, run.1 = .error e := by
  simp only [RocksStore.toLogStore, Db.logs, Option.map_eq_some_iff] at hlog
  obtain ⟨cf, hcf, rfl⟩ := hlog
  unfold compileCfRun
  simp only [hbuild, Bool.not_true, Bool.false_eq_true, if_false, iterateCf, Db.cfHandle, hcf, hread, iteratorStart]
  have hiterated := iterateItems_chunked fromReader env cf.values chunked_start
  rw [List.nil_append] at hiterated
  dsimp only at hiterated ⊢
  generalize (iterateItems (compileRecord fromReader env) (cf.values.map .ok) CompileState.start).2 = st at *
  rcases hiterated with h | ⟨⟨e, herr⟩, hstopped⟩
  · rw [h.noErr]
    by_cases hevents : st.events = []
    · simp only [hevents, List.isEmpty_nil, if_true]
      exact Or.inl ⟨h.allWritten hevents, trivial⟩
    · simp only [List.isEmpty_iff, hevents, if_false]
      by_cases hok : FlushOk env st.flushes
      · rw [flushEventsToWriter_of_ok hok]
        exact Or.inl ⟨h.allWritten_flush hevents hok, rfl⟩
      · obtain ⟨e, hfail⟩ := flushEventsToWriter_of_not_ok hok
        rw [hfail]
        exact Or.inr ⟨stopped_of_not_flushOk h.rows_eq h.full h.flushes h.succeeded hevents hok st.ioErr, e, rfl⟩
  · rw [herr]
    exact Or.inr ⟨hstopped, e, rfl⟩

/-- The chunks of a compilation are together what a compilation in one piece would write, and the
first call that fails ends it without data files. -/
theorem chunked_as_plain (fromReader : Bytes → Except Error ε) {store : RocksStore} {name : String}
    {log : List Bytes} (hlog : store.toLogStore.logs name = some log) (hread : env.readErrorAt = none) :
    ChunkedAsPlain fromReader store name env log := by
  have hfst : (compileCfRun fromReader store name env).1 = compileCfPipeline fromReader store name env := rfl
  refine ⟨fun hbuild => ?_, fun hbuild hok => ?_, fun hbuild k hk hprev hfail => ?_⟩
  · have hrun : compileCfRun fromReader store name env =
        (.error (.anyhow "DataFileWriterBuilder::build failed"), CompileState.start) := by
      simp [compileCfRun, hbuild]
    rw [← hfst, hrun]
    exact ⟨⟨_, rfl⟩, rfl⟩
  · rcases compileCfRun_cases fromReader hlog hread hbuild with ⟨hall, hclose⟩ | ⟨hstopped, -⟩
    · refine ⟨hall.batches, hall.rows_eq, fun hcloseOk => ?_, fun hcloseOk => ?_⟩
      · rw [← hfst, hclose, closeWriter, if_pos hcloseOk]
      · rw [← hfst, hclose, closeWriter, if_neg hcloseOk]
        exact ⟨_, rfl⟩
    · exact absurd (hok _ hstopped.lt_chunkCount) hstopped.failed
  · rcases compileCfRun_cases fromReader hlog hread hbuild with ⟨hall, -⟩ | ⟨hstopped, herr⟩
    · exact absurd (hall.succeeded k (hall.count ▸ hk)) hfail
    · have hlength : (compileCfRun fromReader store name env).2.written.length = k := by
        rcases lt_trichotomy (compileCfRun fromReader store name env).2.written.length k with hlt | heq | hgt
        · exact absurd (hprev _ hlt) hstopped.failed
        · exact heq
        · exact absurd (hstopped.succeeded k hgt) hfail
      refine ⟨hfst ▸ herr, ?_, hlength, ?_⟩
      · rw [hstopped.flushes, hlength]
      · rw [List.prefix_iff_eq_take.mp hstopped.written, length_flatten_of_full hstopped.full, hlength]

lemma logs_filled {values : List Bytes} (hroom : values.length < 2 ^ 64 - 1) :
    (freshStore.writeBatch initialCf values true).2.toLogStore.logs initialCf = some values := by
  have hactive : freshStore.db.lookup initialCf = some SortedMap.empty := rfl
  have hfound : freshStore.toLogStore.logs initialCf = some [] := rfl
  have hspace : freshStore.counter + values.length < 2 ^ 64 := by
    have hcounter : freshStore.counter = 1 := rfl
    omega
  rcases writeBatch_cases freshStore initialCf values true with
    ⟨hno, -⟩ | ⟨-, s', hs', -⟩ | ⟨cf, full, s', hcf, hs', hw⟩
  · exact absurd (by decide) hno
  · unfold RocksStore.writeBatch Db.cfHandle at hs'
    rw [hactive] at hs'
    cases hs'
  · rw [hactive, Option.some.injEq] at hcf
    subst hcf
    rw [hs', wrote_refines hw hactive (keysBelow_empty _) hspace]
    simp only [LogStore.append, Function.update_self, hfound, Option.map_some, List.nil_append]

/-- Twenty-five thousand records, and the second chunk cannot be written. -/
theorem chunked_as_plain_second_chunk :
    ∃ store : RocksStore, store.toLogStore.logs "active" = some (List.replicate 25000 [5]) ∧
      ChunkedAsPlain readByte store "active" { calmEnv with writeOk := fun i => i ≠ 1 } (List.replicate 25000 [5]) := by
  have hroom : (List.replicate 25000 ([5] : Bytes)).length < 2 ^ 64 - 1 := by
    rw [List.length_replicate]
    norm_num
  exact ⟨_, logs_filled hroom, chunked_as_plain readByte (logs_filled hroom) rfl⟩

end MicewriterEngine.Proofs
