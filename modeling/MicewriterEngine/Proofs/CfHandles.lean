import MicewriterEngine.Model.CfHandles
import MicewriterEngine.Proofs.FifoLog

/-!
# Iteration and the handles

A call that finds no handle changes nothing, so a history with handles is a history of the
directory with some calls left out. The existing column families without a handle are those
whose drop failed since the last open, and only for these `iterate_cf` has no answer.
-/

namespace MicewriterEngine.Proofs
open Lib OpenStore

variable {h h' : HandleHistory} {o : OpenStore} {e : Event}

/-- A call is one of the store, or it finds no handle and returns an error. -/
lemma perform_cases (o : OpenStore) (op : Op) :
    ((o.perform op).1 = false ∧ (o.perform op).2 = o ∧ o.keysAllotted op = 0 ∧ o.failedDrop op = []) ∨
      (o.perform op).1 = (o.store.perform op).1 ∧ (o.perform op).2.store = (o.store.perform op).2 ∧
        o.keysAllotted op = o.store.keysAllotted op := by
  cases op with
  | appendBatch values writeOk =>
    cases values with
    | nil => exact Or.inr ⟨rfl, rfl, by simp [keysAllotted, RocksStore.keysAllotted]⟩
    | cons value values =>
      cases hcf : o.cfHandle o.store.activeCf with
      | none =>
        refine Or.inl ⟨?_, ?_, ?_, rfl⟩
        · simp [OpenStore.perform, OpenStore.appendBatch, hcf, Except.isOk, Except.toBool]
        · simp [OpenStore.perform, OpenStore.appendBatch, hcf]
        · simp [keysAllotted, hcf]
      | some cf =>
        have hactive : o.store.activeCf ∈ o.store.db := by
          unfold OpenStore.cfHandle at hcf
          split at hcf
          · rw [← AList.lookup_isSome]
            exact Option.isSome_iff_exists.mpr ⟨cf, hcf⟩
          · cases hcf
        refine Or.inr ⟨?_, ?_, ?_⟩
        · simp [OpenStore.perform, OpenStore.appendBatch, hcf, RocksStore.perform]
        · simp [OpenStore.perform, OpenStore.appendBatch, hcf, RocksStore.perform]
        · simp [keysAllotted, hcf, RocksStore.keysAllotted, hactive]
  | rotate ts createOk draw =>
    right
    simp only [OpenStore.perform, OpenStore.rotate, RocksStore.perform, keysAllotted, RocksStore.keysAllotted]
    rcases o.store.rotate ts createOk draw with ⟨result, s⟩
    cases result with
    | error e => exact ⟨rfl, rfl, trivial⟩
    | ok frozen => exact ⟨rfl, rfl, trivial⟩
  | dropFrozenCf name dropOk =>
    by_cases hname : name ∈ o.handles
    · refine Or.inr ⟨?_, ?_, rfl⟩
      · simp [OpenStore.perform, OpenStore.dropFrozenCf, hname, RocksStore.perform]
      · simp [OpenStore.perform, OpenStore.dropFrozenCf, hname, RocksStore.perform]
    · refine Or.inl ⟨?_, ?_, rfl, ?_⟩
      · simp [OpenStore.perform, OpenStore.dropFrozenCf, hname, Except.isOk, Except.toBool]
      · simp [OpenStore.perform, OpenStore.dropFrozenCf, hname]
      · simp [failedDrop, hname]

lemma recordAppend_false (active : String) (op : Op) (log : String → List Bytes) :
    recordAppend active false op log = log := by
  cases op <;> rfl

lemma recordDrop_false (op : Op) (log : String → List Bytes) : recordDrop false op log = log := by
  cases op <;> rfl

lemma directory_step (h : HandleHistory) (e : Event) (h' : HandleHistory) (hstep : HandleStep h e h') :
    h'.directory = h.directory ∨ HistoryStep h.directory e h'.directory := by
  cases hstep with
  | @call o op hup =>
    have hup' : h.directory.process = .up o.store := by
      simp only [HandleHistory.directory, HandleProcess.directory, hup]
    rcases perform_cases o op with ⟨hrefused, hsame, hkeys, -⟩ | ⟨hok, hstore, hkeys⟩
    · left
      simp only [HandleHistory.directory, HandleHistory.record, hrefused, hsame, hkeys, recordAppend_false,
        recordDrop_false, hup, Nat.add_zero]
    · right
      have hcall := HistoryStep.call op hup'
      simp only [History.record, Bool.and_true] at hcall
      simp only [HandleHistory.directory, HandleHistory.record, HandleProcess.directory, hok, hstore, hkeys]
      exact hcall
  | @crash o hup =>
    right
    have hup' : h.directory.process = .up o.store := by
      simp only [HandleHistory.directory, HandleProcess.directory, hup]
    exact .crash hup'
  | opened hdown hlist hnew =>
    right
    refine .opened ?_ hlist hnew
    simp only [HandleHistory.directory, HandleProcess.directory, hdown]
  | openFailed hdown hlist hnew => exact Or.inl rfl

theorem directory_of_run {es : List Event} (hrun : Run HandleStep .empty es h) :
    ∃ fs, fs.Sublist es ∧ Run HistoryStep .empty fs h.directory :=
  hrun.simulate HandleHistory.directory directory_step

lemma betweenCalls_of_run {es : List Event} (hrun : Run HandleStep h es h') : ∀ e ∈ es, e.BetweenCalls := by
  induction hrun with
  | nil => exact fun _ he => absurd he List.not_mem_nil
  | cons hfirst _ ih =>
    refine List.forall_mem_cons.mpr ⟨?_, ih⟩
    cases hfirst <;> trivial

/-- The existing column families are those with a handle and those whose drop failed. -/
structure HandlesInv (o : OpenStore) (failedDrops : List String) : Prop where
  exist : ∀ name, name ∈ o.store.db ↔ name ∈ o.handles ∨ name ∈ failedDrops
  apart : ∀ name ∈ o.handles, name ∉ failedDrops

lemma db_of_append (s : RocksStore) (values : List Bytes) (writeOk : Bool) (name : String) :
    name ∈ (s.appendBatch values writeOk).2.db ↔ name ∈ s.db := by
  rcases appendBatch_cases s values writeOk with
    ⟨-, heq⟩ | ⟨-, e, heq⟩ | ⟨-, s', heq, hskip⟩ | ⟨cf, full, s', hcf, heq, hwrote⟩
  · rw [heq]
  · rw [heq]
  · rw [heq, hskip.db]
  · have hactive : s.activeCf ∈ s.db := by rw [← AList.lookup_isSome, hcf, Option.isSome_some]
    rw [heq, hwrote.db, Db.writeCf, AList.mem_insert]
    exact ⟨fun hname => hname.elim (fun heq => heq ▸ hactive) id, Or.inr⟩

theorem HandlesInv.perform {failedDrops : List String} (hinv : HandlesInv o failedDrops) (op : Op) :
    HandlesInv (o.perform op).2 (o.failedDrop op ++ failedDrops) := by
  cases op with
  | appendBatch values writeOk =>
    have hhandles : (o.perform (.appendBatch values writeOk)).2.handles = o.handles := by
      simp only [OpenStore.perform, OpenStore.appendBatch]
      split
      · rfl
      · split <;> rfl
    refine ⟨fun name => ?_, fun name hname => ?_⟩
    · have hdb : name ∈ (o.perform (.appendBatch values writeOk)).2.store.db ↔ name ∈ o.store.db := by
        rcases perform_cases o (.appendBatch values writeOk) with ⟨-, hsame, -⟩ | ⟨-, hstore, -⟩
        · rw [hsame]
        · rw [hstore]
          exact db_of_append o.store values writeOk name
      rw [hdb, hhandles]
      exact hinv.exist name
    · rw [hhandles] at hname
      exact hinv.apart name hname
  | rotate ts createOk draw =>
    simp only [OpenStore.perform, OpenStore.rotate, failedDrop, List.nil_append]
    rcases rotate_cases o.store ts createOk draw with heq | ⟨s', heq, hrotated⟩
    · rw [heq]
      exact ⟨hinv.exist, hinv.apart⟩
    · rw [heq]
      dsimp only
      refine ⟨fun name => ?_, fun name hname => ?_⟩
      · rw [hrotated.db, AList.mem_insert, hinv.exist, List.mem_cons, or_assoc]
      · rcases List.mem_cons.mp hname with rfl | hold
        · exact fun hfailed => hrotated.fresh ((hinv.exist _).mpr (Or.inr hfailed))
        · exact hinv.apart name hold
  | dropFrozenCf name dropOk =>
    by_cases hname : name ∈ o.handles
    · have hothers : ∀ other, other ∈ o.handles.filter (· ≠ name) ↔ other ∈ o.handles ∧ other ≠ name := by
        intro other
        rw [List.mem_filter, decide_eq_true_iff]
      simp only [OpenStore.perform, OpenStore.dropFrozenCf, failedDrop, hname, if_true, true_and]
      rcases dropFrozenCf_cases o.store name dropOk with heq | ⟨s', heq, hdropped⟩
      · simp only [heq, Except.isOk, Except.toBool, if_true, List.singleton_append]
        refine ⟨fun other => ?_, fun other hother => ?_⟩
        · rw [hothers, List.mem_cons, hinv.exist]
          by_cases hsame : other = name
          · simp [hsame, hname]
          · simp [hsame]
        · rw [hothers] at hother
          rw [List.mem_cons, not_or]
          exact ⟨hother.2, hinv.apart other hother.1⟩
      · simp only [heq, Except.isOk, Except.toBool, Bool.true_eq_false, if_false, List.nil_append]
        refine ⟨fun other => ?_, fun other hother => ?_⟩
        · rw [hdropped.db, AList.mem_erase, hothers, hinv.exist]
          by_cases hsame : other = name
          · simp [hsame, hinv.apart name hname]
          · simp [hsame]
        · exact hinv.apart other ((hothers other).mp hother).1
    · simp only [OpenStore.perform, OpenStore.dropFrozenCf, failedDrop, hname, if_false, false_and, List.nil_append]
      exact hinv

theorem handles_of_run {es : List Event} (hrun : Run HandleStep .empty es h) (hup : h.process = .up o) :
    HandlesInv o h.failedDrops := by
  refine hrun.invariant (fun h => ∀ o, h.process = .up o → HandlesInv o h.failedDrops) ?_ ?_ o hup
  · intro h e h' hinv hstep
    cases hstep with
    | @call o op hup =>
      rintro _ ⟨⟩
      exact (hinv o hup).perform op
    | crash hup => rintro _ ⟨⟩
    | opened hdown hlist hnew =>
      rintro _ ⟨⟩
      refine ⟨fun name => ?_, fun _ _ => List.not_mem_nil⟩
      rw [AList.mem_keys, or_iff_left List.not_mem_nil]
      rfl
    | openFailed hdown hlist hnew => exact hinv
  · rintro _ ⟨⟩

/-- In a sequential history `iterate_cf` yields the values of the successful appends to the column family,
each once and in the order they were appended, unless a drop of it failed inside RocksDB since the
last open: then it has no handle. -/
theorem iterateCf_of_history {es : List Event} {name : String} (hrun : Run HandleStep .empty es h)
    (hreads : ∀ e ∈ es, e.ReadsOk) (hroom : h.allotted < 2 ^ 64 - 1) (hup : h.process = .up o)
    (hname : name ∈ o.store.db) :
    o.iterateCf name none collect [] =
      if name ∈ h.failedDrops then (.error (.anyhow s!"CF '{name}' not found"), []) else (.ok (), h.acked name) := by
  obtain ⟨hexist, hapart⟩ := handles_of_run hrun hup
  split
  · rename_i hfailed
    have hnone : o.cfHandle name = none := if_neg (fun hhandle => hapart name hhandle hfailed)
    simp only [OpenStore.iterateCf, hnone]
  · rename_i hkept
    have hhandle : o.cfHandle name = o.store.db.cfHandle name :=
      if_pos (((hexist name).mp hname).resolve_right hkept)
    obtain ⟨fs, hsub, hdirectory⟩ := directory_of_run hrun
    have hup' : h.directory.process = .up o.store := by
      simp only [HandleHistory.directory, HandleProcess.directory, hup]
    have hstored := iterateCf_yields_acked hdirectory (fun e he => betweenCalls_of_run hrun e (hsub.subset he))
      (fun e he => hreads e (hsub.subset he)) hroom hup' hname
    simp only [OpenStore.iterateCf, hhandle]
    exact hstored

/-- A batch, a failed batch, a rotation, a drop that fails, an append, and a reopen that continues in the
rotated column family. -/
theorem iterateCf_of_history_reopened :
    ∃ (h : HandleHistory) (o : OpenStore), h.process = .up o ∧ h.acked "active" = [[1], [2]] ∧
      h.acked "active_7" = [[3], [4]] ∧
      o.iterateCf "active" none collect [] = (.ok (), h.acked "active") ∧
      o.iterateCf "active_7" none collect [] = (.ok (), h.acked "active_7") := by
  have hrun := (.cons (.opened rfl (listsCf_none none) new_freshStore) (.cons (.call _ rfl)
    (.cons (.call _ rfl) (.cons (.call _ rfl) (.cons (.call _ rfl) (.cons (.call _ rfl) (.cons (.crash rfl)
    (.cons (.opened rfl (listsCf_keys rfl) rfl) (.cons (.call _ rfl) (.nil _))))))))) :
      Run HandleStep .empty [.openStore ⟨none, true, true, 0⟩ 0 0, .call (.appendBatch [[1], [2]] true),
        .call (.appendBatch [[9]] false), .call (.rotate 7 true 0), .call (.dropFrozenCf "active" false),
        .call (.appendBatch [[3]] true), .crash,
        .openStore ⟨some ["active_7", "active", "default"], true, true, 0⟩ 0 0,
        .call (.appendBatch [[4]] true)] _)
  refine ⟨_, _, rfl, ?_, ?_, (iterateCf_of_history hrun ?_ ?_ rfl ?_).trans (if_neg ?_),
    (iterateCf_of_history hrun ?_ ?_ rfl ?_).trans (if_neg ?_)⟩
  all_goals first | decide | simp [Event.ReadsOk]

/-- After a drop that fails inside RocksDB the column family exists and cannot be iterated over. -/
theorem failed_drop_hides_log :
    ¬∀ (es : List Event) (h : HandleHistory) (o : OpenStore) (name : String), Run HandleStep .empty es h →
      (∀ e ∈ es, e.ReadsOk) → h.allotted < 2 ^ 64 - 1 → h.process = .up o → name ∈ o.store.db → IsEngineCf name →
      o.iterateCf name none collect [] = (.ok (), h.acked name) := by
  intro hall
  have hrun := (.cons (.opened rfl (listsCf_none none) new_freshStore) (.cons (.call _ rfl)
    (.cons (.call _ rfl) (.cons (.call _ rfl) (.nil _)))) :
      Run HandleStep .empty [.openStore ⟨none, true, true, 0⟩ 0 0, .call (.appendBatch [[1]] true),
        .call (.rotate 7 true 0), .call (.dropFrozenCf "active" false)] _)
  have hyields := hall _ _ _ "active" hrun (by simp [Event.ReadsOk]) (by decide) rfl (by decide) (by decide)
  exact absurd (congrArg (fun r => r.1.isOk) hyields) (by decide)

end MicewriterEngine.Proofs
