import Mathlib.Tactic.Abel
import MicewriterEngine.Model.Pipeline
import MicewriterEngine.Proofs.StoreSteps

/-!
# Ownership and conservation in the pipeline

Each column family that was taken or waits has one holder, and the rows on their way to
the table are the contents of their column family. The second part needs that no batch is
written to a column family that was read already.
-/

namespace MicewriterEngine.Proofs
open Lib

variable {p p' : Pipeline} {e : PipelineEvent}

lemma mem_tagFrom {tag : ℕ → RecordId} {first : ℕ} {values : List Bytes} {r : Record}
    (h : r ∈ tagFrom tag first values) : ∃ n, first ≤ n ∧ n < first + values.length ∧ r.id = tag n := by
  induction values generalizing first with
  | nil => cases h
  | cons v values ih =>
    rw [List.length_cons]
    rcases List.mem_cons.mp h with rfl | h
    · exact ⟨first, le_rfl, by omega, rfl⟩
    · obtain ⟨n, hlo, hhi, hid⟩ := ih h
      exact ⟨n, by omega, by omega, hid⟩

lemma nodup_tagFrom {tag : ℕ → RecordId} (htag : Function.Injective tag) (first : ℕ) (values : List Bytes) :
    (tagFrom tag first values).Nodup := by
  induction values generalizing first with
  | nil => exact List.nodup_nil
  | cons v values ih =>
    refine List.nodup_cons.mpr ⟨fun hmem => ?_, ih (first + 1)⟩
    obtain ⟨n, hlo, -, hid⟩ := mem_tagFrom hmem
    have heq := htag hid
    omega

lemma id_newRecords {values : List Bytes} {r : Record} (h : r ∈ p.newRecords values) :
    ∃ n, p.nextId ≤ n ∧ n < p.nextId + values.length ∧ r.id = .appended n :=
  mem_tagFrom h

lemma nodup_newRecords (p : Pipeline) (values : List Bytes) : (p.newRecords values).Nodup :=
  nodup_tagFrom (fun _ _ h => RecordId.appended.inj h) p.nextId values

lemma tracked_start (s : LogStore Bytes) :
    trackedCfs (.start s) = {s.activeCf} + (s.orphanedCfs : Multiset String) := by
  unfold trackedCfs Pipeline.heldCfs
  simp [Pipeline.start, Committer.cfs]

lemma coe_cons_eq (a : String) (l : List String) :
    ((a :: l : List String) : Multiset String) = {a} + (l : Multiset String) := by
  rw [Multiset.singleton_add, Multiset.cons_coe]

lemma coe_append_eq (l m : List String) :
    ((l ++ m : List String) : Multiset String) = (l : Multiset String) + (m : Multiset String) :=
  (Multiset.coe_add l m).symm

lemma map_cf_cons (t : FlushTask) (tasks : Multiset FlushTask) :
    (t ::ₘ tasks).map FlushTask.cf = {t.cf} + tasks.map FlushTask.cf := by
  rw [Multiset.map_cons, Multiset.singleton_add]

lemma map_cf_spawned (cfs : List String) : (cfs.map FlushTask.spawned).map FlushTask.cf = cfs := by
  rw [List.map_map]
  exact List.map_id cfs

lemma tracked_dropping {cf : String} {cfs : List String} (hdropping : p.committer = .dropping (cf :: cfs)) :
    trackedCfs p = {cf} + trackedCfs { p with committer := .dropping cfs } := by
  unfold trackedCfs Pipeline.heldCfs
  simp only [hdropping, Committer.cfs, coe_cons_eq]
  abel

/-- A step keeps the tracked column families, adds a fresh one, or lets one go. -/
theorem tracked_cases (h : PipelineStep p e p') :
    trackedCfs p' = trackedCfs p ∨
      (∃ ts, p.store.logs (rotatedCf ts) = none ∧ p'.store.logs (rotatedCf ts) = some [] ∧
        trackedCfs p' = {rotatedCf ts} + trackedCfs p) ∨
      ∃ cf, trackedCfs p = {cf} + trackedCfs p' := by
  unfold trackedCfs Pipeline.heldCfs
  cases h with
  | clone hvalues => exact Or.inl rfl
  | write hcall hlookup => exact Or.inl rfl
  | writeMissing hcall hlookup => exact Or.inl rfl
  | drain =>
    left
    simp only [LogStore.takeOrphans_activeCf, LogStore.takeOrphans_orphanedCfs, Multiset.cons_bind, Cycle.cfs,
      Multiset.coe_nil]
    abel
  | rotate ts hcycle hfresh =>
    refine Or.inr (Or.inl ⟨ts, hfresh, Function.update_self _ _ _, ?_⟩)
    simp only [hcycle, LogStore.rotate_activeCf, LogStore.rotate_orphanedCfs, Multiset.cons_bind, Cycle.cfs,
      coe_append_eq, Multiset.coe_singleton]
    abel
  | spawn hcycle =>
    left
    simp only [hcycle, Multiset.cons_bind, Cycle.cfs, Multiset.map_add, Multiset.map_coe, map_cf_spawned]
    abel
  | iterate htask => exact Or.inl (by simp only [htask, map_cf_cons, FlushTask.cf])
  | compiled htask => exact Or.inl (by simp only [htask, map_cf_cons, FlushTask.cf])
  | buildFailed htask => exact Or.inl (by simp only [htask, map_cf_cons, FlushTask.cf])
  | compileFailed htask => exact Or.inl (by simp only [htask, map_cf_cons, FlushTask.cf])
  | sent htask =>
    left
    simp only [htask, map_cf_cons, FlushTask.cf, List.map_append, List.map_cons, List.map_nil, coe_append_eq,
      Multiset.coe_singleton]
    abel
  | sendFailed htask => exact Or.inl (by simp only [htask, map_cf_cons, FlushTask.cf])
  | retained htask =>
    left
    simp only [htask, map_cf_cons, FlushTask.cf, LogStore.retain_activeCf, LogStore.retain_orphanedCfs,
      coe_append_eq, Multiset.coe_singleton]
    abel
  | recv hidle hqueue =>
    left
    simp only [hidle, hqueue, Committer.cfs, List.map_cons, List.map_nil, coe_cons_eq, Multiset.coe_nil]
    abel
  | tryRecv hcollecting hqueue =>
    left
    simp only [hcollecting, hqueue, Committer.cfs, List.map_append, List.map_cons, List.map_nil, coe_append_eq,
      coe_cons_eq, Multiset.coe_nil]
    abel
  | collected hcollecting hqueue => exact Or.inl (by simp only [hcollecting, Committer.cfs])
  | committed hcommitting => exact Or.inl (by simp only [hcommitting, Committer.cfs])
  | commitFailed hcommitting hrows => exact Or.inl (by simp only [hcommitting, Committer.cfs])
  | @dropped cf cfs hdropping hexists => exact Or.inr (Or.inr ⟨cf, tracked_dropping hdropping⟩)
  | @dropFailed cf cfs hdropping => exact Or.inr (Or.inr ⟨cf, tracked_dropping hdropping⟩)
  | kept hretaining =>
    left
    simp only [hretaining, Committer.cfs, LogStore.retain_activeCf, LogStore.retain_orphanedCfs, coe_append_eq,
      coe_cons_eq, Multiset.coe_nil]
    abel
  | settled hdone =>
    left
    rcases hdone with hdone | hdone <;> simp only [hdone, Committer.cfs]

lemma log_eq_nil {name : String} (h : p.store.logs name = none) : p.log name = [] := by
  rw [Pipeline.log, h, Option.getD_none]

lemma mem_tracked_of_step (h : PipelineStep p e p') {name : String} (hname : name ∈ trackedCfs p') :
    p.log name = [] ∨ name ∈ trackedCfs p := by
  rcases tracked_cases h with heq | ⟨ts, hfresh, -, heq⟩ | ⟨cf, heq⟩
  · exact Or.inr (heq ▸ hname)
  · rw [heq, Multiset.mem_add, Multiset.mem_singleton] at hname
    rcases hname with rfl | hname
    · exact Or.inl (log_eq_nil hfresh)
    · exact Or.inr hname
  · rw [heq, Multiset.mem_add]
    exact Or.inr (Or.inr hname)

/-- Every tracked column family has one holder, and exists unless it is the initial name, which a
process can find active without a column family. -/
structure OwnershipInv (p : Pipeline) : Prop where
  nodup : (trackedCfs p).Nodup
  exist : ∀ name ∈ trackedCfs p, p.store.logs name ≠ none ∨ name = initialCf

lemma exists_of_step (hinv : OwnershipInv p) (h : PipelineStep p e p') {name : String}
    (hname : name ∈ trackedCfs p') (hexists : p.store.logs name ≠ none) : p'.store.logs name ≠ none := by
  cases h with
  | @write cf values rest hcall hlookup =>
    simp only [LogStore.append]
    by_cases heq : name = cf
    · subst heq
      rw [Function.update_self]
      exact fun hnone => hexists (Option.map_eq_none_iff.mp hnone)
    · rwa [Function.update_of_ne heq]
  | rotate ts hcycle hfresh =>
    simp only [LogStore.rotate]
    have hne : name ≠ rotatedCf ts := by
      rintro rfl
      exact hexists hfresh
    rwa [Function.update_of_ne hne]
  | @dropped cf cfs hdropping hexists' =>
    have htracked := tracked_dropping hdropping
    have hne : name ≠ cf := by
      rintro rfl
      have hnodup := hinv.nodup
      rw [htracked, Multiset.nodup_add] at hnodup
      exact Multiset.disjoint_left.mp hnodup.2.2 (Multiset.mem_singleton_self _) hname
    simp only [LogStore.drop]
    rwa [Function.update_of_ne hne]
  | _ => exact hexists

theorem OwnershipInv.step (hinv : OwnershipInv p) (h : PipelineStep p e p') : OwnershipInv p' := by
  have hexist : ∀ name ∈ trackedCfs p', name ∈ trackedCfs p → p'.store.logs name ≠ none ∨ name = initialCf := by
    intro name hname hold
    exact (hinv.exist name hold).imp_left (exists_of_step hinv h hname)
  rcases tracked_cases h with heq | ⟨ts, hfresh, hcreated, heq⟩ | ⟨cf, heq⟩
  · exact ⟨heq ▸ hinv.nodup, fun name hname => hexist name hname (heq ▸ hname)⟩
  · have hnew : rotatedCf ts ∉ trackedCfs p := fun hmem =>
      (hinv.exist _ hmem).elim (fun hexists => hexists hfresh) (rotatedCf_ne_initialCf ts)
    refine ⟨?_, fun name hname => ?_⟩
    · rw [heq, Multiset.nodup_add]
      exact ⟨Multiset.nodup_singleton _, hinv.nodup, Multiset.disjoint_left.mpr (fun hmem =>
        (Multiset.mem_singleton.mp hmem) ▸ hnew)⟩
    · have hcases := hname
      rw [heq, Multiset.mem_add, Multiset.mem_singleton] at hcases
      rcases hcases with rfl | hold
      · exact Or.inl (by rw [hcreated]; exact Option.some_ne_none _)
      · exact hexist name hname hold
  · have hnodup := hinv.nodup
    rw [heq, Multiset.nodup_add] at hnodup
    refine ⟨hnodup.2.1, fun name hname => hexist name hname ?_⟩
    rw [heq, Multiset.mem_add]
    exact Or.inr hname

end MicewriterEngine.Proofs
