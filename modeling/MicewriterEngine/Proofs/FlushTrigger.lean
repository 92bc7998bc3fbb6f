import MicewriterEngine.Lib.Runs
import MicewriterEngine.Model.FlushTrigger
import MicewriterEngine.Proofs.StoreSteps

/-!
# The flush trigger

A full column family is flushed: whenever the counted bytes of the active column family have
reached the limit, a flush is due, whatever streams, flush cycles and manual flushes overlap.
There are two exceptions, and the next append that counts its bytes ends either of them. And an
accepted `flush_now` has all that was stored at the call flushed, also when it comes in the
middle of a cycle.
-/

namespace MicewriterEngine.Proofs
open Lib

variable {ι : Type} [DecidableEq ι] {manual : Bool} {p p' : Trigger ι} {e : TriggerEvent ι} {es : List (TriggerEvent ι)}

/-- The stream calls `notify_one` before it takes its next message. -/
def WillNotify (limit : ℕ) : StreamPhase → Prop
  | .counted newSize => limit ≤ newSize
  | .notifying => True
  | _ => False

/-- The cycle sets the byte counter back to zero unless its rotation fails. -/
def WillSwap : CyclePhase → Prop
  | .starting => True
  | .rotating _ => True
  | .switched _ _ => True
  | _ => False

/-- A flush is on its way. After the loop has returned, `main` makes the emergency flush. -/
inductive FlushDue (p : Trigger ι) : Prop
  | permit (hpermit : p.permit = true)
  | stream (i : ι) (hnotify : WillNotify p.store.activeCfSizeLimit (p.streams i))
  | cycle (hswap : WillSwap p.cycle)
  | returned (hreturned : p.cycle = .returned)

/-- The event counts bytes of the active column family. -/
def Counts : TriggerEvent ι → Prop
  | .fetchAdd _ => True
  | _ => False

/-- After bytes were counted for the last time, a rotation failed, or the limit was drawn anew when the
stream had compared them with the limit before. -/
def Missed (es : List (TriggerEvent ι)) : Prop :=
  ∃ i after, LastOf Counts es (.fetchAdd i) after ∧
    (.createCfFailed ∈ after ∨ ∃ l₁ draw l₂, after = l₁ ++ .resetSizeLimit draw :: l₂ ∧ .compare i ∈ l₁)

omit [DecidableEq ι] in
lemma FlushDue.kept (hdue : FlushDue p) (hpermit : p.permit = true → p'.permit = true)
    (hstreams : ∀ i, WillNotify p.store.activeCfSizeLimit (p.streams i) →
      WillNotify p'.store.activeCfSizeLimit (p'.streams i))
    (hswap : WillSwap p.cycle → WillSwap p'.cycle) (hreturned : p.cycle = .returned → p'.cycle = .returned) :
    FlushDue p' := by
  cases hdue with
  | permit h => exact .permit (hpermit h)
  | stream i h => exact .stream i (hstreams i h)
  | cycle h => exact .cycle (hswap h)
  | returned h => exact .returned (hreturned h)

lemma move_self (p : Trigger ι) (i : ι) (phase : StreamPhase) :
    (p.move i phase).streams i = phase :=
  @Function.update_self ι (fun _ => StreamPhase) _ i phase p.streams

lemma move_of_ne (p : Trigger ι) {i j : ι} (hne : j ≠ i) (phase : StreamPhase) :
    (p.move i phase).streams j = p.streams j :=
  @Function.update_of_ne ι (fun _ => StreamPhase) _ j i hne phase p.streams

/-- A stream is moved by its own events only. -/
lemma stream_kept (h : TriggerStep manual p e p') {i : ι} {newSize : ℕ} (hphase : p.streams i = .counted newSize) :
    p'.streams i = .counted newSize ∨ e = .compare i := by
  have hmoved : ∀ {j : ι} {phase : StreamPhase} (phase' : StreamPhase), p.streams j = phase →
      phase ≠ .counted newSize → (p.move j phase').streams i = .counted newSize := by
    rintro j _ phase' rfl hne
    have hij : i ≠ j := fun heq => hne (heq ▸ hphase)
    rw [move_of_ne p hij, hphase]
  cases h with
  | clone hother => exact Or.inl (hmoved _ hother (by simp))
  | write hother => exact Or.inl (hmoved _ hother (by simp))
  | writeFailed hother => exact Or.inl (hmoved _ hother (by simp))
  | writeMissing hother => exact Or.inl (hmoved _ hother (by simp))
  | fetchAdd hother => exact Or.inl (hmoved _ hother (by simp))
  | notifyOne hother => exact Or.inl (hmoved _ hother (by simp))
  | @compare j n hother =>
    by_cases hij : i = j
    · exact Or.inr (by rw [hij])
    · exact Or.inl ((move_of_ne p hij _).trans hphase)
  | _ => exact Or.inl hphase

/-- The size of the active column family and the limit, after an event that counts nothing. -/
inductive SizeChange (p p' : Trigger ι) : TriggerEvent ι → Prop
  | same (e : TriggerEvent ι) (hbytes : p'.store.activeCfBytes = p.store.activeCfBytes)
      (hlimit : p'.store.activeCfSizeLimit = p.store.activeCfSizeLimit)
      (hdue : FlushDue p → FlushDue p' ∨ e = .createCfFailed) : SizeChange p p' e
  | swap (hbytes : p'.store.activeCfBytes = 0)
      (hlimit : p'.store.activeCfSizeLimit = p.store.activeCfSizeLimit) : SizeChange p p' .swap
  | reset (draw : ℕ) (hbytes : p'.store.activeCfBytes = p.store.activeCfBytes)
      (hlimit : 1024 * 1024 ≤ p'.store.activeCfSizeLimit) : SizeChange p p' (.resetSizeLimit draw)

/-- A stream that goes on leaves what is due to the others, or is due itself. -/
lemma flushDue_move {i : ι} {phase : StreamPhase} {store : RocksStore}
    (hlimit : store.activeCfSizeLimit = p.store.activeCfSizeLimit)
    (hself : WillNotify p.store.activeCfSizeLimit (p.streams i) → WillNotify p.store.activeCfSizeLimit phase)
    (hdue : FlushDue p) : FlushDue { p.move i phase with store := store } := by
  refine hdue.kept id (fun j hnotify => ?_) id id
  dsimp only
  rw [hlimit]
  by_cases hji : j = i
  · subst hji
    rw [move_self]
    exact hself hnotify
  · rwa [move_of_ne p hji]

lemma dropFrozenCf_sizes (s : RocksStore) (name : String) (dropOk : Bool) :
    (s.dropFrozenCf name dropOk).2.activeCfBytes = s.activeCfBytes ∧
      (s.dropFrozenCf name dropOk).2.activeCfSizeLimit = s.activeCfSizeLimit := by
  unfold RocksStore.dropFrozenCf
  split
  · exact ⟨rfl, rfl⟩
  · dsimp only
    split <;> exact ⟨rfl, rfl⟩

lemma sizeChange_of_step (h : TriggerStep manual p e p') (hcounts : ¬Counts e) : SizeChange p p' e := by
  cases h with
  | clone hphase | writeMissing hphase =>
    exact .same _ rfl rfl (fun hdue => Or.inl (flushDue_move rfl (by simp [hphase, WillNotify]) hdue))
  | write hphase | writeFailed hphase =>
    exact .same _ rfl rfl (fun hdue => Or.inl (flushDue_move rfl (by simp [hphase, WillNotify]) hdue))
  | fetchAdd => exact absurd trivial hcounts
  | compare hphase =>
    refine .same _ rfl rfl (fun hdue => Or.inl (flushDue_move rfl ?_ hdue))
    rw [hphase]
    intro (hreached : _ ≤ _)
    rw [if_pos hreached]
    trivial
  | notifyOne => exact .same _ rfl rfl (fun _ => Or.inl (.permit rfl))
  | flushNow =>
    refine .same _ rfl rfl (fun hdue => Or.inl (hdue.kept (fun hpermit => ?_) (fun _ => id) id id))
    dsimp only
    rw [hpermit, flushNow]
    split <;> rfl
  | timer | notified => exact .same _ rfl rfl (fun _ => Or.inl (.cycle trivial))
  | signal => exact .same _ rfl rfl (fun hdue => Or.inl (hdue.kept id (fun _ => id) id id))
  | returned => exact .same _ rfl rfl (fun _ => Or.inl (.returned rfl))
  | getOrphanedCfs | createCf => exact .same _ rfl rfl (fun _ => Or.inl (.cycle trivial))
  | createCfFailed => exact .same _ rfl rfl (fun _ => Or.inr rfl)
  | swap => exact .swap rfl rfl
  | resetSizeLimit draw => exact .reset draw rfl (le_max_right _ _)
  | spawn hcycle | setUpFailed hcycle =>
    refine .same _ rfl rfl (fun hdue => Or.inl (hdue.kept id (fun _ => id) ?_ ?_)) <;> rw [hcycle]
    · exact False.elim
    · rintro ⟨⟩
  | retain => exact .same _ rfl rfl (fun hdue => Or.inl (hdue.kept id (fun _ => id) id id))
  | @drop name hlock dropOk =>
    obtain ⟨hbytes, hlimit⟩ := dropFrozenCf_sizes p.store name dropOk
    refine .same _ hbytes hlimit (fun hdue => Or.inl (hdue.kept id (fun i hnotify => ?_) id id))
    rwa [hlimit]

/-- A stream that is alone in the store does what `append_batch` does. -/
theorem run_stream_alone {i : ι} {cborBytes : Bytes} {full : Bool} {s : RocksStore}
    (hphase : p.streams i = .receiving) (hlock : ¬p.cycle.InRotate)
    (happend : p.store.appendBatch [cborBytes] true = (.ok full, s)) :
    Run (TriggerStep manual) p [.clone i cborBytes, .write i, .fetchAdd i, .compare i]
      { p.move i (if full then .notifying else .receiving) with store := s } := by
  rw [RocksStore.appendBatch, List.isEmpty_cons, if_neg Bool.false_ne_true] at happend
  simp only [RocksStore.writeBatch, if_true, List.foldl_cons, List.foldl_nil] at happend
  split at happend
  · cases happend
  · rename_i cf hcf
    simp only [Prod.mk.injEq, Except.ok.injEq] at happend
    obtain ⟨rfl, rfl⟩ := happend
    have hrun := (.cons (.clone hphase hlock) (.cons (.write (move_self p i _) hcf)
      (.cons (.fetchAdd (move_self _ i _)) (.cons (.compare (move_self _ i _)) (.nil _)))) :
        Run (TriggerStep manual) p [.clone i cborBytes, .write i, .fetchAdd i, .compare i] _)
    convert hrun using 1
    simp only [Trigger.move, Function.update_idem]
    congr 2
    exact if_congr decide_eq_true_iff rfl rfl

/-- A cycle that is alone in the store rotates as `rotate` does. -/
theorem run_rotation_alone {cfs : List String} {ts draw : ℕ} {frozen : String} {s : RocksStore}
    (hcycle : p.cycle = .rotating cfs) (hlock : ∀ i, ¬(p.streams i).InDb)
    (hrotate : p.store.rotate ts true draw = (.ok frozen, s)) :
    Run (TriggerStep manual) p [.createCf ts, .swap, .resetSizeLimit draw]
      { p with store := s, cycle := .settingUp (cfs ++ [frozen]) } := by
  simp only [RocksStore.rotate, if_true] at hrotate
  split at hrotate
  · cases hrotate
  · rename_i db hcreate
    cases hrotate
    exact .cons (.createCf hcycle hlock hcreate) (.cons (.swap rfl) (.cons (.resetSizeLimit draw rfl) (.nil _)))

/-! ### A full column family -/

structure SizeInv (es : List (TriggerEvent ι)) (p : Trigger ι) : Prop where
  limit : 1024 * 1024 ≤ p.store.activeCfSizeLimit
  /-- The stream that counted bytes last has the size, unless it has compared it already. -/
  last : p.store.activeCfBytes = 0 ∨ ∃ i after, LastOf Counts es (.fetchAdd i) after ∧
    (p.streams i = .counted p.store.activeCfBytes ∨ .compare i ∈ after)
  due : p.store.activeCfSizeLimit ≤ p.store.activeCfBytes → FlushDue p ∨ Missed es

omit [DecidableEq ι] in
lemma Missed.snoc (h : Missed es) (hcounts : ¬Counts e) : Missed (es ++ [e]) := by
  obtain ⟨i, after, hlast, hmissed⟩ := h
  refine ⟨i, after ++ [e], hlast.snoc hcounts, ?_⟩
  rcases hmissed with hfailed | ⟨l₁, draw, l₂, rfl, hcompare⟩
  · exact Or.inl (List.mem_append_left _ hfailed)
  · exact Or.inr ⟨l₁, draw, l₂ ++ [e], by rw [List.append_assoc, List.cons_append], hcompare⟩

lemma SizeInv.step_last (hinv : SizeInv es p) (h : TriggerStep manual p e p') (hcounts : ¬Counts e)
    (hbytes : p'.store.activeCfBytes = p.store.activeCfBytes) :
    p'.store.activeCfBytes = 0 ∨ ∃ i after, LastOf Counts es (.fetchAdd i) after ∧
      (p'.streams i = .counted p'.store.activeCfBytes ∨ .compare i ∈ after ++ [e]) := by
  rw [hbytes]
  refine hinv.last.imp_right ?_
  rintro ⟨i, after, hlast, hcounted | hcompare⟩
  · refine ⟨i, after, hlast, (stream_kept h hcounted).imp_right ?_⟩
    rintro rfl
    exact List.mem_append_right _ List.mem_cons_self
  · exact ⟨i, after, hlast, Or.inr (List.mem_append_left _ hcompare)⟩

theorem SizeInv.step (hinv : SizeInv es p) (h : TriggerStep manual p e p') : SizeInv (es ++ [e]) p' := by
  by_cases hcounts : Counts e
  · cases h with
    | @fetchAdd i batchBytes hphase =>
      refine ⟨hinv.limit, Or.inr ⟨i, [], .of_snoc trivial, Or.inl ?_⟩, fun hfull => Or.inl (.stream i ?_)⟩
      · exact move_self p i _
      · dsimp only
        rw [move_self]
        exact hfull
    | _ => exact hcounts.elim
  have hsize := sizeChange_of_step h hcounts
  cases hsize with
  | same e hbytes hlimit hdue =>
    have hlast := hinv.step_last h hcounts hbytes
    have hlimit' := hinv.limit
    refine ⟨hlimit.symm ▸ hlimit', ?_, fun hfull => ?_⟩
    · exact hlast.imp_right (fun ⟨i, after, hlast, hnext⟩ => ⟨i, after ++ [e], hlast.snoc hcounts, hnext⟩)
    · rw [hbytes, hlimit] at hfull
      rcases hinv.due hfull with hdue' | hmissed
      · refine (hdue hdue').imp_right ?_
        rintro rfl
        rcases hinv.last with hzero | ⟨i, after, hlast, -⟩
        · omega
        · exact ⟨i, _, hlast.snoc hcounts, Or.inl (List.mem_append_right _ List.mem_cons_self)⟩
      · exact Or.inr (hmissed.snoc hcounts)
  | swap hbytes hlimit =>
    have hlimit' := hinv.limit
    refine ⟨hlimit.symm ▸ hlimit', Or.inl hbytes, fun hfull => ?_⟩
    omega
  | reset draw hbytes hlimit =>
    have hlast := hinv.step_last h hcounts hbytes
    refine ⟨hlimit, ?_, fun hfull => ?_⟩
    · exact hlast.imp_right (fun ⟨i, after, hlast, hnext⟩ => ⟨i, after ++ [_], hlast.snoc hcounts, hnext⟩)
    · rcases hlast with hzero | ⟨i, after, hlast, hcounted | hcompare⟩
      · omega
      · refine Or.inl (.stream i ?_)
        rw [hcounted]
        exact hfull
      · refine Or.inr ⟨i, after ++ [.resetSizeLimit draw], hlast.snoc hcounts, Or.inr ⟨after, draw, [], rfl, ?_⟩⟩
        simpa using hcompare

lemma new_sizes {disk : Option Db} {env : OpenEnv} {flushSizeBytes flushSizeJitterBytes : ℕ} {s : RocksStore}
    (hnew : RocksStore.new disk env flushSizeBytes flushSizeJitterBytes = .ok s) :
    s.activeCfBytes = 0 ∧ 1024 * 1024 ≤ s.activeCfSizeLimit := by
  unfold RocksStore.new at hnew
  dsimp only at hnew
  split at hnew
  · cases hnew
  · cases hnew
    exact ⟨rfl, le_max_right _ _⟩

/-- When the counted bytes of the active column family have reached the limit, a flush is due. -/
theorem full_cf_flush_due {disk : Option Db} {env : OpenEnv} {flushSizeBytes flushSizeJitterBytes : ℕ}
    {s : RocksStore} (hnew : RocksStore.new disk env flushSizeBytes flushSizeJitterBytes = .ok s)
    (hrun : Run (TriggerStep manual) (.start ι s) es p)
    (hfull : p.store.activeCfSizeLimit ≤ p.store.activeCfBytes) : FlushDue p ∨ Missed es := by
  obtain ⟨hzero, hlimit⟩ := new_sizes hnew
  have hstart : SizeInv [] (Trigger.start ι s) := by
    refine ⟨hlimit, Or.inl hzero, fun hfull => ?_⟩
    dsimp only [Trigger.start] at hfull
    omega
  have hinv := hrun.invariant_trace (fun _ _ _ _ hinv h => hinv.step h) hstart
  exact hinv.due hfull

/-- A stream counts a record that fills the column family of a fresh store. -/
lemma run_fill {record : Bytes} (hrecord : record.length = 1024 * 1024) :
    ∃ p : Trigger ℕ, Run (TriggerStep false) (.start ℕ freshStore) [.clone 0 record, .write 0, .fetchAdd 0] p ∧
      p.permit = false ∧ p.cycle = .waiting ∧ p.store.activeCfSizeLimit ≤ p.store.activeCfBytes := by
  refine ⟨_, .cons (.clone rfl id) (.cons (.write rfl rfl) (.cons (.fetchAdd rfl) (.nil _))), rfl, rfl, ?_⟩
  change 1024 * 1024 ≤ u64 (0 + u64 (0 + u64 record.length))
  rw [hrecord]
  decide

/-- That stream has not compared the size yet. -/
theorem full_cf_flush_due_counted :
    ∃ p : Trigger ℕ, p.permit = false ∧ p.cycle = .waiting ∧
      (FlushDue p ∨ Missed [.clone 0 (List.replicate (1024 * 1024) 0), .write 0, .fetchAdd 0]) := by
  obtain ⟨p, hrun, hpermit, hcycle, hfull⟩ := run_fill List.length_replicate
  exact ⟨p, hpermit, hcycle, full_cf_flush_due new_freshStore hrun hfull⟩

/-- The column families that the cycle has taken and not given to tasks yet. -/
def cfsToFlush : CyclePhase → List String
  | .rotating cfs => cfs
  | .switched cfs frozen => cfs ++ [frozen]
  | .swapped cfs frozen _ => cfs ++ [frozen]
  | .settingUp cfs => cfs
  | _ => []

/-- The cycle freezes the active column family. -/
def WillSwitch : CyclePhase → Prop
  | .starting => True
  | .rotating _ => True
  | _ => False

/-- The column family is flushed by this cycle or the next one. -/
inductive Pending (name : String) (p : Trigger ι) : Prop
  | orphaned (hname : name ∈ p.store.orphanedCfs) (hnext : p.permit = true ∨ p.cycle = .starting)
  | active (hname : name = p.store.activeCf) (hnext : p.permit = true ∨ WillSwitch p.cycle)
  | taken (hname : name ∈ cfsToFlush p.cycle)

/-- A flush cycle fails. -/
def Fails : TriggerEvent ι → Prop
  | .createCfFailed => True
  | .setUpFailed => True
  | _ => False

/-- A stream saw a full column family, or a manual flush was accepted. -/
def Notifies (enableManualFlush : Bool) : TriggerEvent ι → Prop
  | .notifyOne _ => True
  | .flushNow => enableManualFlush = true
  | _ => False

variable {name : String}

omit [DecidableEq ι] in
lemma Pending.kept (hpending : Pending name p) (horphaned : p.store.orphanedCfs ⊆ p'.store.orphanedCfs)
    (hactive : p'.store.activeCf = p.store.activeCf) (hcycle : p'.cycle = p.cycle)
    (hpermit : p.permit = true → p'.permit = true) : Pending name p' := by
  cases hpending with
  | orphaned hname hnext => exact .orphaned (horphaned hname) (hnext.imp hpermit hcycle.trans)
  | active hname hnext => exact .active (hname.trans hactive.symm) (hnext.imp hpermit (hcycle ▸ id))
  | taken hname => exact .taken (hcycle ▸ hname)

lemma dropFrozenCf_names (s : RocksStore) (name : String) (dropOk : Bool) :
    (s.dropFrozenCf name dropOk).2.orphanedCfs = s.orphanedCfs ∧
      (s.dropFrozenCf name dropOk).2.activeCf = s.activeCf := by
  unfold RocksStore.dropFrozenCf
  split
  · exact ⟨rfl, rfl⟩
  · dsimp only
    split <;> exact ⟨rfl, rfl⟩

/-- What a cycle that does not fail does to the column families that wait for it. -/
lemma Pending.step (hpending : Pending name p) (h : TriggerStep manual p e p') (hok : ¬Fails e) :
    Pending name p' ∧ p'.tasks = p.tasks ∨
      ∃ cfs, p'.tasks = p.tasks ++ cfs ∧ (name ∈ cfs ∨ Pending name p') := by
  cases h with
  | clone | write | writeFailed | writeMissing | fetchAdd | compare | signal =>
    exact Or.inl ⟨hpending.kept (List.Subset.refl _) rfl rfl id, rfl⟩
  | notifyOne => exact Or.inl ⟨hpending.kept (List.Subset.refl _) rfl rfl (fun _ => rfl), rfl⟩
  | flushNow =>
    refine Or.inl ⟨hpending.kept (List.Subset.refl _) rfl rfl (fun hpermit => ?_), rfl⟩
    dsimp only
    rw [hpermit, flushNow]
    split <;> rfl
  | retain => exact Or.inl ⟨hpending.kept (List.subset_append_left _ _) rfl rfl id, rfl⟩
  | @drop dropped hlock dropOk =>
    obtain ⟨horphaned, hactive⟩ := dropFrozenCf_names p.store dropped dropOk
    exact Or.inl ⟨hpending.kept (horphaned ▸ List.Subset.refl _) hactive rfl id, rfl⟩
  | timer hcycle =>
    refine Or.inl ⟨?_, rfl⟩
    cases hpending with
    | orphaned hname hnext => exact .orphaned hname (Or.inr rfl)
    | active hname hnext => exact .active hname (Or.inr trivial)
    | taken hname => simp [hcycle, cfsToFlush] at hname
  | notified hcycle =>
    refine Or.inl ⟨?_, rfl⟩
    cases hpending with
    | orphaned hname hnext => exact .orphaned hname (Or.inr rfl)
    | active hname hnext => exact .active hname (Or.inr trivial)
    | taken hname => simp [hcycle, cfsToFlush] at hname
  | returned hcycle =>
    refine Or.inl ⟨?_, rfl⟩
    cases hpending with
    | orphaned hname hnext => exact .orphaned hname (hnext.imp_right (by simp [hcycle]))
    | active hname hnext => exact .active hname (hnext.imp_right (by simp [hcycle, WillSwitch]))
    | taken hname => simp [hcycle, cfsToFlush] at hname
  | getOrphanedCfs hcycle =>
    refine Or.inl ⟨?_, rfl⟩
    cases hpending with
    | orphaned hname hnext => exact .taken hname
    | active hname hnext => exact .active hname (Or.inr trivial)
    | taken hname => simp [hcycle, cfsToFlush] at hname
  | createCf hcycle =>
    refine Or.inl ⟨?_, rfl⟩
    cases hpending with
    | orphaned hname hnext => exact .orphaned hname (hnext.imp_right (by simp [hcycle]))
    | active hname hnext => exact .taken (by simp [cfsToFlush, hname])
    | taken hname =>
      rw [hcycle] at hname
      exact .taken (List.mem_append_left _ hname)
  | createCfFailed | setUpFailed => exact absurd trivial hok
  | swap hcycle | resetSizeLimit draw hcycle =>
    refine Or.inl ⟨?_, rfl⟩
    cases hpending with
    | orphaned hname hnext => exact .orphaned hname (hnext.imp_right (by simp [hcycle]))
    | active hname hnext => exact .active hname (hnext.imp_right (by simp [hcycle, WillSwitch]))
    | taken hname =>
      rw [hcycle] at hname
      exact .taken hname
  | @spawn cfs hcycle =>
    refine Or.inr ⟨cfs, rfl, ?_⟩
    cases hpending with
    | orphaned hname hnext => exact Or.inr (.orphaned hname (hnext.imp_right (by simp [hcycle])))
    | active hname hnext => exact Or.inr (.active hname (hnext.imp_right (by simp [hcycle, WillSwitch])))
    | taken hname =>
      rw [hcycle] at hname
      exact Or.inl hname

lemma tasks_grow (h : TriggerStep manual p e p') : ∃ cfs, p'.tasks = p.tasks ++ cfs := by
  cases h with
  | spawn => exact ⟨_, rfl⟩
  | _ => exact ⟨[], (List.append_nil _).symm⟩

/-- The column family was given to a task, or waits for the cycle. -/
def Served (earlier : List String) (name : String) (p : Trigger ι) : Prop :=
  ∃ given, p.tasks = earlier ++ given ∧ (name ∈ given ∨ Pending name p)

lemma Served.step {earlier : List String} (hserved : Served earlier name p) (h : TriggerStep manual p e p')
    (hok : ¬Fails e) : Served earlier name p' := by
  obtain ⟨given, htasks, hgiven | hpending⟩ := hserved
  · obtain ⟨cfs, hcfs⟩ := tasks_grow h
    exact ⟨given ++ cfs, by rw [hcfs, htasks, List.append_assoc], Or.inl (List.mem_append_left _ hgiven)⟩
  · rcases hpending.step h hok with ⟨hpending', hsame⟩ | ⟨cfs, hcfs, hnext⟩
    · exact ⟨given, hsame.trans htasks, Or.inr hpending'⟩
    · exact ⟨given ++ cfs, by rw [hcfs, htasks, List.append_assoc], hnext.imp_left (List.mem_append_right _)⟩

/-- Once the loop waits again without a permit, and no cycle failed, the column family that was active
when a flush was asked for, and those that waited for a flush, have been given to flush tasks. -/
theorem notification_served {a a' b : Trigger ι} (h : TriggerStep manual a e a') (hnotifies : Notifies manual e)
    (hrun : Run (TriggerStep manual) a' es b) (hok : ∀ e ∈ es, ¬Fails e) (hwaiting : b.cycle = .waiting)
    (hpermit : b.permit = false) :
    ∃ given, b.tasks = a.tasks ++ given ∧ ∀ name ∈ a.store.activeCf :: a.store.orphanedCfs, name ∈ given := by
  have hasked : ∀ name ∈ a.store.activeCf :: a.store.orphanedCfs, Served a.tasks name a' := by
    intro name hname
    have hset : a'.permit = true ∧ a'.store = a.store ∧ a'.tasks = a.tasks := by
      cases h with
      | notifyOne => exact ⟨rfl, rfl, rfl⟩
      | flushNow =>
        have hmanual : manual = true := hnotifies
        refine ⟨?_, rfl, rfl⟩
        dsimp only
        rw [flushNow, if_pos hmanual]
      | _ => exact hnotifies.elim
    obtain ⟨hset, hstore, htasks⟩ := hset
    refine ⟨[], by rw [htasks, List.append_nil], Or.inr ?_⟩
    rcases List.mem_cons.mp hname with hactive | horphaned
    · exact .active (hactive.trans (by rw [hstore])) (Or.inl hset)
    · exact .orphaned (hstore ▸ horphaned) (Or.inl hset)
  have hserved : ∀ name ∈ a.store.activeCf :: a.store.orphanedCfs, Served a.tasks name b := by
    intro name hname
    have hguarded := hrun.guarded_of_forall hok
    exact hguarded.invariant _ (fun _ _ _ hserved h => hserved.step h.2 h.1) (hasked name hname)
  obtain ⟨given, htasks, -⟩ := hserved _ List.mem_cons_self
  refine ⟨given, htasks, fun name hname => ?_⟩
  obtain ⟨given', htasks', hgiven | hpending⟩ := hserved name hname
  · rwa [List.append_cancel_left (htasks.symm.trans htasks')]
  · cases hpending with
    | orphaned _ hnext => simp [hpermit, hwaiting] at hnext
    | active _ hnext => simp [hpermit, hwaiting, WillSwitch] at hnext
    | taken hname => simp [hwaiting, cfsToFlush] at hname

/-- The flush loop is about to spawn the tasks of a cycle. -/
def settingUp : Trigger ℕ :=
  { Trigger.start ℕ { freshStore with orphanedCfs := ["active_3"] } with cycle := .settingUp ["active_1"] }

/-- A manual flush in the middle of that cycle. -/
theorem notification_served_settingUp :
    ∃ b : Trigger ℕ, b.tasks = ["active_1", "active_3", "active"] ∧
      ∃ given, b.tasks = settingUp.tasks ++ given ∧
        ∀ name ∈ settingUp.store.activeCf :: settingUp.store.orphanedCfs, name ∈ given := by
  have hrun := (.cons (.spawn rfl) (.cons (.notified rfl rfl) (.cons (.getOrphanedCfs rfl)
    (.cons (.createCf rfl (fun _ => id) rfl) (.cons (.swap rfl) (.cons (.resetSizeLimit 0 rfl)
    (.cons (.spawn rfl) (.nil _))))))) :
    Run (TriggerStep true) { settingUp with permit := (flushNow true settingUp.permit).2 }
      [.spawn, .notified, .getOrphanedCfs, .createCf 7, .swap, .resetSizeLimit 0, .spawn] _)
  refine ⟨_, ?_, notification_served (.flushNow _) rfl hrun ?_ rfl rfl⟩
  · rfl
  · simp [Fails]

end MicewriterEngine.Proofs
