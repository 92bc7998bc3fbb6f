import Mathlib.Data.Finset.Basic
import MicewriterEngine.Lib.Runs
import MicewriterEngine.Proofs.StoreSteps

/-!
# The representation invariant of the store

The column families of an open store are the active one, which exists, and the frozen
ones, whose sizes are tracked. The invariant is kept by every sequence of calls in which
a name is dropped only by a caller that holds it.
-/

namespace MicewriterEngine.Proofs
open Lib

/-- The calls that the rest of the engine makes on an open store. -/
inductive StoreCall
  | appendBatch (values : List Bytes) (writeOk : Bool)
  | rotate (ts : ℕ) (createOk : Bool) (draw : ℕ)
  | getOrphanedCfs
  | retainFrozenCf (name : String)
  | dropFrozenCf (name : String) (dropOk : Bool)

/-- An open store and the names that `rotate` or `get_orphaned_cfs` returned and that were
not dropped since. -/
structure Session where
  store : RocksStore
  returned : Finset String

def Session.call (x : Session) : StoreCall → Session
  | .appendBatch values writeOk => { x with store := (x.store.appendBatch values writeOk).2 }
  | .rotate ts createOk draw =>
    match x.store.rotate ts createOk draw with
    | (.ok frozen, store) => ⟨store, insert frozen x.returned⟩
    | (.error _, store) => ⟨store, x.returned⟩
  | .getOrphanedCfs =>
    ⟨x.store.getOrphanedCfs.2, x.returned ∪ x.store.getOrphanedCfs.1.toFinset⟩
  | .retainFrozenCf name => { x with store := x.store.retainFrozenCf name }
  | .dropFrozenCf name dropOk =>
    match x.store.dropFrozenCf name dropOk with
    | (.ok (), store) => ⟨store, x.returned.erase name⟩
    | (.error _, store) => ⟨store, x.returned⟩

/-- The names given to the store were returned by it and not dropped since, and a name being
retained is not waiting already. -/
def NamesReturned (x : Session) : StoreCall → Prop
  | .rotate ts _ _ => ts < 2 ^ 64
  | .retainFrozenCf name => name ∈ x.returned ∧ name ∉ x.store.orphanedCfs
  | .dropFrozenCf name _ => name ∈ x.returned
  | _ => True

/-- In addition a name being dropped is not waiting for another flush: the caller holds it. -/
def CallerHolds (x : Session) : StoreCall → Prop
  | .dropFrozenCf name dropOk =>
    NamesReturned x (.dropFrozenCf name dropOk) ∧ name ∉ x.store.orphanedCfs
  | c => NamesReturned x c

def sessionStep (x : Session) (c : StoreCall) (y : Session) : Prop := y = x.call c

/-- The active column family exists, the tracked sizes are those of the other engine column
families, and the waiting ones are among them without repetition. -/
structure RepInv (s : RocksStore) : Prop where
  active_mem : s.activeCf ∈ s.db
  active_engine : IsEngineCf s.activeCf
  sizes : ∀ name, name ∈ s.frozenCfSizes ↔ name ∈ s.db ∧ IsEngineCf name ∧ name ≠ s.activeCf
  orphans_nodup : s.orphanedCfs.Nodup
  orphans_sub : ∀ name ∈ s.orphanedCfs, name ∈ s.frozenCfSizes

/-- The store satisfies its invariant and every returned name is a tracked frozen one. -/
def SessionInv (x : Session) : Prop :=
  RepInv x.store ∧ ∀ name ∈ x.returned, name ∈ x.store.frozenCfSizes

lemma SessionInv.active_notMem {x : Session} (h : SessionInv x) : x.store.activeCf ∉ x.returned := by
  intro hmem
  exact ((h.1.sizes _).mp (h.2 _ hmem)).2.2 rfl

lemma RepInv.congr {s s' : RocksStore} (h : RepInv s) (hdb : ∀ name, name ∈ s'.db ↔ name ∈ s.db)
    (hactive : s'.activeCf = s.activeCf) (horphans : s'.orphanedCfs = s.orphanedCfs)
    (hsizes : s'.frozenCfSizes = s.frozenCfSizes) : RepInv s' where
  active_mem := by rw [hactive, hdb]; exact h.active_mem
  active_engine := by rw [hactive]; exact h.active_engine
  sizes := by
    intro name
    rw [hsizes, hdb, hactive]
    exact h.sizes name
  orphans_nodup := by rw [horphans]; exact h.orphans_nodup
  orphans_sub := by rw [horphans, hsizes]; exact h.orphans_sub

lemma RepInv.rotated {s s' : RocksStore} {ts : ℕ} (h : RepInv s) (hts : ts < 2 ^ 64)
    (hr : Rotated s ts s') : RepInv s' where
  active_mem := by
    rw [hr.activeCf, hr.db, AList.mem_insert]
    exact Or.inl rfl
  active_engine := by rw [hr.activeCf]; exact isEngineCf_rotatedCf hts
  sizes := by
    intro name
    rw [hr.frozenCfSizes, AList.mem_insert, hr.db, AList.mem_insert, hr.activeCf, h.sizes]
    constructor
    · rintro (rfl | ⟨hmem, hengine, hne⟩)
      · exact ⟨Or.inr h.active_mem, h.active_engine, fun heq => hr.fresh (heq ▸ h.active_mem)⟩
      · exact ⟨Or.inr hmem, hengine, fun heq => hr.fresh (heq ▸ hmem)⟩
    · rintro ⟨hmem, hengine, hne⟩
      have hold : name ∈ s.db := hmem.resolve_left hne
      by_cases heq : name = s.activeCf
      · exact Or.inl heq
      · exact Or.inr ⟨hold, hengine, heq⟩
  orphans_nodup := by rw [hr.orphanedCfs]; exact h.orphans_nodup
  orphans_sub := by
    rw [hr.orphanedCfs, hr.frozenCfSizes]
    intro name hname
    rw [AList.mem_insert]
    exact Or.inr (h.orphans_sub name hname)

lemma RepInv.dropped {s s' : RocksStore} {name : String} (h : RepInv s) (hd : Dropped s name s')
    (hfrozen : name ∈ s.frozenCfSizes) (hheld : name ∉ s.orphanedCfs) : RepInv s' where
  active_mem := by
    rw [hd.activeCf, hd.db, AList.mem_erase]
    exact ⟨fun heq => ((h.sizes name).mp hfrozen).2.2 heq.symm, h.active_mem⟩
  active_engine := by rw [hd.activeCf]; exact h.active_engine
  sizes := by
    intro other
    rw [hd.frozenCfSizes, AList.mem_erase, hd.db, AList.mem_erase, hd.activeCf, h.sizes]
    tauto
  orphans_nodup := by rw [hd.orphanedCfs]; exact h.orphans_nodup
  orphans_sub := by
    rw [hd.orphanedCfs, hd.frozenCfSizes]
    intro other hother
    rw [AList.mem_erase]
    exact ⟨fun heq => hheld (heq ▸ hother), h.orphans_sub other hother⟩

lemma RepInv.appendBatch {s : RocksStore} (h : RepInv s) (values : List Bytes) (writeOk : Bool) :
    RepInv (s.appendBatch values writeOk).2 ∧
      (s.appendBatch values writeOk).2.frozenCfSizes = s.frozenCfSizes := by
  rcases appendBatch_cases s values writeOk with
    ⟨-, h₀⟩ | ⟨-, e, he⟩ | ⟨-, s', hs', hskip⟩ | ⟨cf, full, s', hcf, hs', hwrote⟩
  · rw [h₀]
    exact ⟨h, rfl⟩
  · rw [he]
    exact ⟨h, rfl⟩
  · rw [hs']
    refine ⟨h.congr ?_ hskip.activeCf hskip.orphanedCfs hskip.frozenCfSizes, hskip.frozenCfSizes⟩
    exact fun name => by rw [hskip.db]
  · rw [hs']
    refine ⟨h.congr ?_ hwrote.activeCf hwrote.orphanedCfs hwrote.frozenCfSizes, hwrote.frozenCfSizes⟩
    intro name
    rw [hwrote.db, Db.writeCf, AList.mem_insert]
    exact ⟨fun hname => hname.elim (fun heq => heq ▸ h.active_mem) id, Or.inr⟩

/-- Every call by a caller that holds the name it passes keeps the invariant. -/
theorem session_step_invariant (x : Session) (c : StoreCall) (y : Session) (h : SessionInv x)
    (hstep : Guarded sessionStep CallerHolds x c y) : SessionInv y := by
  obtain ⟨hallowed, rfl⟩ := hstep
  obtain ⟨hrep, hret⟩ := h
  cases c with
  | appendBatch values writeOk =>
    obtain ⟨hinv, hsizes⟩ := hrep.appendBatch values writeOk
    refine ⟨hinv, fun name hname => ?_⟩
    rw [Session.call, hsizes]
    exact hret name hname
  | rotate ts createOk draw =>
    rcases rotate_cases x.store ts createOk draw with herr | ⟨s', hs', hr⟩
    · rw [Session.call, herr]
      exact ⟨hrep, hret⟩
    · rw [Session.call, hs']
      refine ⟨hrep.rotated hallowed hr, fun name hname => ?_⟩
      rw [hr.frozenCfSizes, AList.mem_insert]
      rcases Finset.mem_insert.mp hname with rfl | hname
      · exact Or.inl rfl
      · exact Or.inr (hret name hname)
  | getOrphanedCfs =>
    refine ⟨⟨hrep.active_mem, hrep.active_engine, hrep.sizes, List.nodup_nil,
      by simp [Session.call, RocksStore.getOrphanedCfs]⟩, ?_⟩
    intro name hname
    rw [Session.call, Finset.mem_union, List.mem_toFinset] at hname
    exact hname.elim (hret name) (hrep.orphans_sub name)
  | retainFrozenCf name =>
    obtain ⟨hmem, hnot⟩ := hallowed
    refine ⟨⟨hrep.active_mem, hrep.active_engine, hrep.sizes, ?_, ?_⟩, hret⟩
    · change (x.store.orphanedCfs ++ [name]).Nodup
      rw [List.nodup_append]
      refine ⟨hrep.orphans_nodup, List.nodup_singleton _, ?_⟩
      intro a ha b hb hab
      rw [List.mem_singleton] at hb
      exact hnot (hb ▸ hab ▸ ha)
    · intro other hother
      change other ∈ x.store.orphanedCfs ++ [name] at hother
      rw [List.mem_append, List.mem_singleton] at hother
      rcases hother with hother | rfl
      · exact hrep.orphans_sub other hother
      · exact hret other hmem
  | dropFrozenCf name dropOk =>
    obtain ⟨hmem, hheld⟩ := hallowed
    rcases dropFrozenCf_cases x.store name dropOk with herr | ⟨s', hs', hd⟩
    · rw [Session.call, herr]
      exact ⟨hrep, hret⟩
    · rw [Session.call, hs']
      refine ⟨hrep.dropped hd (hret name hmem) hheld, fun other hother => ?_⟩
      rw [hd.frozenCfSizes, AList.mem_erase]
      obtain ⟨hne, hother⟩ := Finset.mem_erase.mp hother
      exact ⟨hne, hret other hother⟩

/-- `new` establishes the invariant on a missing database and on any database with a column
family of the engine. -/
theorem new_repInv {disk : Option Db} {env : OpenEnv} {flushSizeBytes flushSizeJitterBytes : ℕ}
    {s : RocksStore} (h : RocksStore.new disk env flushSizeBytes flushSizeJitterBytes = .ok s)
    (hlist : Db.ListsCf disk env.listCf)
    (hdisk : ∀ db, disk = some db → ∃ name ∈ db, IsEngineCf name) : RepInv s := by
  obtain ⟨hnodup, hcover, horphans, hactive, hengine, -⟩ := new_covers h hlist
  obtain ⟨hopen, -, -, -, hsizes⟩ := new_ok h
  obtain ⟨hmem, hkept⟩ := Db.openCfDescriptors_some hopen
  have hexists : ∃ name ∈ s.db, IsEngineCf name := by
    cases disk with
    | none =>
      have hanswer : env.listCf = none := by
        cases hanswer : env.listCf with
        | none => rfl
        | some names =>
          obtain ⟨db, hdb, -⟩ := hlist names hanswer
          cases hdb
      exact ⟨initialCf, (hmem initialCf).mpr (by simp [hanswer]), isEngineCf_initialCf⟩
    | some db =>
      obtain ⟨name, hname, hname_engine⟩ := hdisk db rfl
      refine ⟨name, ?_, hname_engine⟩
      rw [← AList.lookup_isSome, hkept, Option.getD_some, if_pos hname, AList.lookup_isSome]
      exact hname
  rw [List.nodup_append] at hnodup
  refine ⟨hactive hexists, hengine, fun name => ?_, hnodup.1, fun name hname => (hsizes name).mpr hname⟩
  rw [hsizes name]
  constructor
  · intro hname
    refine ⟨(horphans name hname).1, (horphans name hname).2, ?_⟩
    exact hnodup.2.2 name hname s.activeCf (by simp)
  · rintro ⟨hname, hname_engine, hne⟩
    exact (hcover name hname hname_engine).resolve_left hne

/-- Through every sequence of calls the active column family exists and is in nobody's hands,
the tracked sizes are exactly those of the other engine column families, and the waiting ones
are among them without repetition. -/
theorem store_representation {disk : Option Db} {env : OpenEnv}
    {flushSizeBytes flushSizeJitterBytes : ℕ} {s : RocksStore}
    (h : RocksStore.new disk env flushSizeBytes flushSizeJitterBytes = .ok s)
    (hlist : Db.ListsCf disk env.listCf)
    (hdisk : ∀ db, disk = some db → ∃ name ∈ db, IsEngineCf name)
    {calls : List StoreCall} {x : Session}
    (hrun : Run (Guarded sessionStep CallerHolds) ⟨s, ∅⟩ calls x) :
    RepInv x.store ∧ x.store.activeCf ∉ x.returned := by
  have hinit : SessionInv ⟨s, ∅⟩ := ⟨new_repInv h hlist hdisk, by simp⟩
  have hinv := hrun.invariant SessionInv session_step_invariant hinit
  exact ⟨hinv.1, hinv.active_notMem⟩

/-- A rotation, a failed flush, its retry and the drop after the commit. -/
theorem store_representation_retry :
    let x := [StoreCall.rotate 5 true 0, .retainFrozenCf "active", .getOrphanedCfs,
      .dropFrozenCf "active" true].foldl Session.call ⟨freshStore, ∅⟩
    RepInv x.store ∧ x.store.activeCf ∉ x.returned := by
  intro x
  have hrun : Run (Guarded sessionStep CallerHolds) ⟨freshStore, ∅⟩ [.rotate 5 true 0, .retainFrozenCf "active",
      .getOrphanedCfs, .dropFrozenCf "active" true] x := by
    refine .cons ⟨?_, rfl⟩ (.cons ⟨?_, rfl⟩ (.cons ⟨trivial, rfl⟩ (.cons ⟨?_, rfl⟩ (.nil _))))
    · exact (by norm_num : 5 < 2 ^ 64)
    · exact ⟨by decide, by decide⟩
    · exact ⟨show "active" ∈ _ by decide, by decide⟩
  exact store_representation new_freshStore (listsCf_none none) (fun _ h => nomatch h) hrun

/-- Dropping a name that waits for another flush leaves it waiting without a column family. -/
theorem drop_of_waiting_breaks_representation :
    ¬∀ (disk : Option Db) (env : OpenEnv) (flushSizeBytes flushSizeJitterBytes : ℕ) (s : RocksStore),
      RocksStore.new disk env flushSizeBytes flushSizeJitterBytes = .ok s →
      Db.ListsCf disk env.listCf → (∀ db, disk = some db → ∃ name ∈ db, IsEngineCf name) →
      ∀ (calls : List StoreCall) (x : Session), Run (Guarded sessionStep NamesReturned) ⟨s, ∅⟩ calls x →
        RepInv x.store ∧ x.store.activeCf ∉ x.returned := by
  intro h
  have hrun : Run (Guarded sessionStep NamesReturned) ⟨freshStore, ∅⟩
      [.rotate 5 true 0, .retainFrozenCf "active", .dropFrozenCf "active" true]
      ([StoreCall.rotate 5 true 0, .retainFrozenCf "active", .dropFrozenCf "active" true].foldl
        Session.call ⟨freshStore, ∅⟩) := by
    refine .cons ⟨?_, rfl⟩ (.cons ⟨?_, rfl⟩ (.cons ⟨?_, rfl⟩ (.nil _)))
    · exact (by norm_num : 5 < 2 ^ 64)
    · exact ⟨by decide, by decide⟩
    · exact show "active" ∈ _ by decide
  have hinv := (h none ⟨none, true, true, 0⟩ 0 0 freshStore new_freshStore (listsCf_none none)
    (fun _ h => nomatch h) _ _ hrun).1
  have hsizes := hinv.orphans_sub "active" (by decide)
  exact absurd hsizes (by decide)

end MicewriterEngine.Proofs
