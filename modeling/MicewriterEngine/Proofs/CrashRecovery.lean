import MicewriterEngine.Proofs.FifoLog

/-!
# Recovery after a crash

The column families that hold acknowledged records have names that `new` recognises, and
they exist in the directory. So whatever the clock printed into the names, every open
finds each of them: as the active column family or among the orphans.
-/

namespace MicewriterEngine.Proofs
open Lib RocksStore

/-- Acknowledged records are in existing column families of the engine, and the active one is one
of the engine's. -/
structure CoverInv (h : History) : Prop where
  acked : ∀ name, h.acked name ≠ [] → name ∈ h.process.db ∧ IsEngineCf name
  active : ∀ s, h.process = .up s → IsEngineCf s.activeCf

variable {h h' : History} {s : RocksStore}

lemma mem_of_grown {old db : Db} (hgrown : Grown old db) {name : String} (hname : name ∈ old) : name ∈ db := by
  rw [← AList.lookup_isSome] at hname ⊢
  rcases hgrown name with heq | ⟨-, heq⟩
  · rwa [heq]
  · rw [heq, Option.isSome_some]

lemma CoverInv.append (hinv : CoverInv h) (hup : h.process = .up s) (values : List Bytes)
    (writeOk returned : Bool) :
    CoverInv (h.record s (.appendBatch values writeOk) returned
      (.up (s.perform (.appendBatch values writeOk)).2)) := by
  have hacked : ∀ name, h.acked name ≠ [] → name ∈ s.db ∧ IsEngineCf name := by
    simpa [hup, Process.db] using hinv.acked
  have hactive := hinv.active s hup
  rcases appendBatch_cases s values writeOk with
    ⟨rfl, h₀⟩ | ⟨hno, e, he⟩ | ⟨hmem, s', hs', hskip⟩ | ⟨cf, full, s', hcf, hs', hwrote⟩
  · simp only [History.record, RocksStore.perform, h₀, recordAppend, recordDrop, Except.isOk, Except.toBool,
      List.append_nil, Function.update_eq_self, ite_self]
    refine ⟨hacked, ?_⟩
    rintro _ ⟨⟩
    exact hactive
  · simp only [History.record, RocksStore.perform, he, recordAppend, recordDrop, Except.isOk, Except.toBool,
      Bool.false_and, ite_false, Bool.false_eq_true]
    refine ⟨hacked, ?_⟩
    rintro _ ⟨⟩
    exact hactive
  · simp only [History.record, RocksStore.perform, hs', recordAppend, recordDrop, Except.isOk, Except.toBool,
      Bool.false_and, ite_false, Bool.false_eq_true]
    refine ⟨fun name hname => ?_, ?_⟩
    · rw [Process.db, hskip.db]
      exact hacked name hname
    · rintro _ ⟨⟩
      rw [hskip.activeCf]
      exact hactive
  · simp only [History.record, RocksStore.perform, hs', recordAppend, recordDrop, Except.isOk, Except.toBool,
      Bool.true_and, ite_true]
    refine ⟨fun name hname => ?_, ?_⟩
    · rw [Process.db, hwrote.db, Db.writeCf, AList.mem_insert]
      by_cases hcur : name = s.activeCf
      · exact ⟨Or.inl hcur, hcur ▸ hactive⟩
      · have hold : h.acked name ≠ [] := by
          intro hnil
          apply hname
          dsimp only
          split
          · rw [Function.update_of_ne hcur, hnil]
          · exact hnil
        exact ⟨Or.inr (hacked name hold).1, (hacked name hold).2⟩
    · rintro _ ⟨⟩
      rw [hwrote.activeCf]
      exact hactive

lemma CoverInv.rotate (hinv : CoverInv h) (hup : h.process = .up s) {ts : ℕ} (hts : ts < 2 ^ 64)
    (createOk : Bool) (draw : ℕ) (returned : Bool) :
    CoverInv (h.record s (.rotate ts createOk draw) returned
      (.up (s.perform (.rotate ts createOk draw)).2)) := by
  have hacked : ∀ name, h.acked name ≠ [] → name ∈ s.db ∧ IsEngineCf name := by
    simpa [hup, Process.db] using hinv.acked
  simp only [History.record, RocksStore.perform, recordAppend, recordDrop]
  rcases rotate_cases s ts createOk draw with herr | ⟨s', hs', hr⟩
  · rw [herr]
    refine ⟨hacked, ?_⟩
    rintro _ ⟨⟩
    exact hinv.active s hup
  · rw [hs']
    refine ⟨fun name hname => ?_, ?_⟩
    · rw [Process.db, hr.db, AList.mem_insert]
      exact ⟨Or.inr (hacked name hname).1, (hacked name hname).2⟩
    · rintro _ ⟨⟩
      rw [hr.activeCf]
      exact isEngineCf_rotatedCf hts

lemma CoverInv.drop (hinv : CoverInv h) (hup : h.process = .up s) (name : String) (dropOk returned : Bool) :
    CoverInv (h.record s (.dropFrozenCf name dropOk) returned
      (.up (s.perform (.dropFrozenCf name dropOk)).2)) := by
  have hacked : ∀ name, h.acked name ≠ [] → name ∈ s.db ∧ IsEngineCf name := by
    simpa [hup, Process.db] using hinv.acked
  rcases dropFrozenCf_cases s name dropOk with herr | ⟨s', hs', hd⟩
  · simp only [History.record, RocksStore.perform, herr, recordAppend, recordDrop, Except.isOk, Except.toBool,
      ite_false, Bool.false_eq_true]
    refine ⟨hacked, ?_⟩
    rintro _ ⟨⟩
    exact hinv.active s hup
  · simp only [History.record, RocksStore.perform, hs', recordAppend, recordDrop, Except.isOk, Except.toBool,
      ite_true]
    refine ⟨fun other hother => ?_, ?_⟩
    · dsimp only at hother
      have hne : other ≠ name := by
        rintro rfl
        rw [Function.update_self] at hother
        exact hother rfl
      rw [Function.update_of_ne hne] at hother
      rw [Process.db, hd.db, AList.mem_erase]
      exact ⟨⟨hne, (hacked other hother).1⟩, (hacked other hother).2⟩
    · rintro _ ⟨⟩
      rw [hd.activeCf]
      exact hinv.active s hup

lemma CoverInv.perform (hinv : CoverInv h) (hup : h.process = .up s) {op : Op}
    (hclock : (Event.call op).ClockInRange) (returned : Bool) :
    CoverInv (h.record s op returned (.up (s.perform op).2)) := by
  cases op with
  | appendBatch values writeOk => exact hinv.append hup values writeOk returned
  | rotate ts createOk draw => exact hinv.rotate hup hclock createOk draw returned
  | dropFrozenCf name dropOk => exact hinv.drop hup name dropOk returned

theorem CoverInv.step {e : Event} (hinv : CoverInv h) (hclock : e.ClockInRange) (hstep : HistoryStep h e h') :
    CoverInv h' := by
  cases hstep with
  | call op hup => exact hinv.perform hup hclock true
  | crash hup =>
    constructor
    · simpa [hup, Process.db] using hinv.acked
    · rintro _ ⟨⟩
  | crashIn op hup =>
    have hop : (Event.call op).ClockInRange := by
      cases op <;> exact hclock
    refine ⟨(hinv.perform hup hop false).acked, ?_⟩
    rintro _ ⟨⟩
  | opened hdown hlist hnew =>
    have hgrown := grown_of_opened (new_ok hnew).1
    refine ⟨fun name hname => ?_, ?_⟩
    · have hold := hinv.acked name hname
      rw [hdown, Process.db] at hold
      exact ⟨mem_of_grown hgrown hold.1, hold.2⟩
    · rintro _ ⟨⟩
      exact (new_covers hnew hlist).2.2.2.2.1
  | openFailed hdown hlist hnew => exact hinv
  | crashInOpen created hdown hlist hopen =>
    constructor
    · intro name hname
      have hold := hinv.acked name hname
      rw [hdown, Process.db] at hold
      exact ⟨mem_of_grown (grown_createMissing _ _) hold.1, hold.2⟩
    · rintro _ ⟨⟩

theorem history_covered {es : List Event} (hrun : Run HistoryStep History.empty es h)
    (hclock : ∀ e ∈ es, e.ClockInRange) : CoverInv h := by
  refine (hrun.guarded_of_forall hclock).invariant CoverInv (fun a e b ha hstep => ha.step hstep.1 hstep.2) ?_
  exact ⟨fun _ hne => absurd rfl hne, fun _ hup => nomatch hup⟩

lemma acked_sublist_written {es : List Event} (hrun : Run HistoryStep History.empty es h) (name : String) :
    (h.acked name).Sublist (h.written name) := by
  refine hrun.invariant (fun h => ∀ name, (h.acked name).Sublist (h.written name)) ?_
    (fun _ => List.Sublist.refl _) name
  intro a e b ha hstep
  have hrecord : ∀ (s : RocksStore) (op : Op) (returned : Bool) (process : Process) (name : String),
      ((a.record s op returned process).acked name).Sublist ((a.record s op returned process).written name) := by
    intro s op returned process name
    cases op with
    | appendBatch values writeOk =>
      simp only [History.record, recordAppend, recordDrop]
      cases (s.perform (.appendBatch values writeOk)).1 with
      | false => exact ha name
      | true =>
        by_cases hname : name = s.activeCf
        · subst hname
          cases returned
          · simpa using (ha s.activeCf).trans (List.sublist_append_left _ _)
          · simpa using (ha s.activeCf).append (List.Sublist.refl values)
        · cases returned <;> simpa [Function.update_of_ne hname] using ha name
    | rotate ts createOk draw => exact ha name
    | dropFrozenCf dropped dropOk =>
      simp only [History.record, recordAppend, recordDrop]
      cases (s.perform (.dropFrozenCf dropped dropOk)).1 with
      | false => exact ha name
      | true =>
        by_cases hname : name = dropped
        · subst hname
          simp
        · simpa [Function.update_of_ne hname] using ha name
  cases hstep with
  | call op hup => exact fun name => hrecord _ op true _ name
  | crash hup => exact ha
  | crashIn op hup => exact fun name => hrecord _ op false _ name
  | opened hdown hlist hnew => exact ha
  | openFailed hdown hlist hnew => exact ha
  | crashInOpen created hdown hlist hopen => exact ha

/-- What an open that follows a history has to find. -/
structure Recovered (h : History) (s : RocksStore) : Prop where
  /-- Acknowledged records are in the active column family or in an orphaned one. -/
  covered : ∀ name, h.acked name ≠ [] → name = s.activeCf ∨ name ∈ s.orphanedCfs
  stored : ∀ name, (h.acked name).Sublist ((s.db.logs name).getD [])
  active_notMem : s.activeCf ∉ s.orphanedCfs
  orphans_nodup : s.orphanedCfs.Nodup
  active_newest : ∀ name ∈ s.db, IsEngineCf name →
    (activeCfTimestamp name).getD 0 ≤ (activeCfTimestamp s.activeCf).getD 0

/-- Without read errors in the opens before, and before the key counter wraps around, every
successful open recovers every acknowledged record. -/
theorem open_recovers {es : List Event} {env : OpenEnv} {flushSizeBytes flushSizeJitterBytes : ℕ}
    (hrun : Run HistoryStep History.empty es h) (hclock : ∀ e ∈ es, e.ClockInRange)
    (hreads : ∀ e ∈ es, e.ReadsOk) (hroom : h.allotted < 2 ^ 64 - 1)
    (hopen : HistoryStep h (.openStore env flushSizeBytes flushSizeJitterBytes) h')
    (hup : h'.process = .up s) : Recovered h' s := by
  have hcover := history_covered hrun hclock
  have hfifo := history_fifo hrun hreads (by omega)
  have hsub := acked_sublist_written hrun
  cases hopen with
  | @opened disk _ _ _ s' hdown hlist hnew =>
    cases hup
    have hgrown := grown_of_opened (new_ok hnew).1
    obtain ⟨hnodup, hfound, -, -, -, hnewest⟩ := new_covers hnew hlist
    rw [List.nodup_append] at hnodup
    refine ⟨fun name hname => ?_, fun name => ?_, ?_, hnodup.1, hnewest⟩
    · have hold := hcover.acked name hname
      rw [hdown, Process.db] at hold
      exact hfound name (mem_of_grown hgrown hold.1) hold.2
    · have hwritten := hfifo.written name
      rw [hdown, Process.db, ← hgrown.logs_getD] at hwritten
      rw [← hwritten]
      exact hsub name
    · exact fun hmem => hnodup.2.2 _ hmem _ (by simp) rfl
  | openFailed hdown hlist hnew =>
    rw [hdown] at hup
    cases hup

/-- Two rotations at the same clock reading, of which the second fails, and a crash inside an append. -/
theorem open_recovers_after_crash :
    ∃ (h : History) (s : RocksStore), h.acked "active" = [[1], [2]] ∧ h.acked "active_7" = [[3]] ∧
      s.activeCf = "active_7" ∧ s.orphanedCfs = ["active"] ∧ Recovered h s := by
  have hrun := (.cons (.opened rfl (listsCf_none none) new_freshStore) (.cons (.call _ rfl)
    (.cons (.call _ rfl) (.cons (.call _ rfl) (.cons (.call _ rfl) (.cons (.crashIn _ rfl) (.nil _)))))) :
      Run HistoryStep History.empty [.openStore ⟨none, true, true, 0⟩ 0 0, .call (.appendBatch [[1], [2]] true),
        .call (.rotate 7 true 0), .call (.rotate 7 true 0), .call (.appendBatch [[3]] true),
        .crashIn (.appendBatch [[4]] true)] _)
  refine ⟨_, _, ?_, ?_, ?_, ?_,
    @open_recovers _ _ _ _ ⟨some ["active_7", "active", "default"], true, true, 0⟩ 0 0 hrun ?_ ?_ ?_
      (.opened rfl (listsCf_keys rfl) rfl) rfl⟩
  all_goals first | decide | simp [Event.ClockInRange, Event.ReadsOk]

/-- An open whose read of the last key fails starts the counter at one, and the next append
overwrites an acknowledged record. -/
theorem failed_read_loses_record :
    ¬∀ (es : List Event) (h h' : History) (env : OpenEnv) (flushSizeBytes flushSizeJitterBytes : ℕ)
      (s : RocksStore), Run HistoryStep History.empty es h → (∀ e ∈ es, e.ClockInRange) →
      HistoryStep h (.openStore env flushSizeBytes flushSizeJitterBytes) h' → h'.process = .up s →
      Recovered h' s := by
  intro hall
  have hrun := (.cons (.opened rfl (listsCf_none none) new_freshStore) (.cons (.call _ rfl) (.cons (.crash rfl)
    (.cons (.opened rfl (listsCf_keys rfl) rfl) (.cons (.call _ rfl) (.cons (.crash rfl) (.nil _)))))) :
      Run HistoryStep History.empty [.openStore ⟨none, true, true, 0⟩ 0 0, .call (.appendBatch [[1]] true), .crash,
        .openStore ⟨some ["active", "default"], true, false, 0⟩ 0 0, .call (.appendBatch [[2]] true), .crash] _)
  have hrecovered := hall _ _ _ ⟨some ["active", "default"], true, true, 0⟩ 0 0 _ hrun (by simp [Event.ClockInRange])
    (.opened rfl (listsCf_keys rfl) rfl) rfl
  exact absurd (hrecovered.stored "active") (by decide)

end MicewriterEngine.Proofs
