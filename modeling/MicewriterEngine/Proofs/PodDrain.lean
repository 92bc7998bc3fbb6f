import MicewriterEngine.Proofs.PodDelivery

/-!
# A process that drains

After an open every column family of the engine is in somebody's hands. It leaves them
only through the drop that follows its commit, as long as no set-up fails and no task
panics. So a process that has nothing left has committed what all processes acknowledged.
-/

namespace MicewriterEngine.Proofs
open Lib

variable {p p' : Pipeline} {e : PipelineEvent} {s : RocksStore}

lemma card_tracked (p : Pipeline) :
    Multiset.card (trackedCfs p) =
      1 + (p.store.orphanedCfs.length + Multiset.card (p.cycles.bind (fun c => (c.cfs : Multiset String))) +
        Multiset.card p.tasks + p.queue.length + p.committer.cfs.length) := by
  simp only [trackedCfs, Pipeline.heldCfs, Multiset.card_add, Multiset.card_singleton, Multiset.coe_card,
    Multiset.card_map, List.length_map]

lemma card_tracked_le (h : PipelineStep p e p') (hdrop : ∀ cf, e ≠ .dropped cf ∧ e ≠ .dropFailed cf) :
    Multiset.card (trackedCfs p) ≤ Multiset.card (trackedCfs p') := by
  rw [card_tracked, card_tracked]
  cases h with
  | dropped hdropping hexists => exact absurd rfl (hdrop _).1
  | dropFailed hdropping => exact absurd rfl (hdrop _).2
  | settled hdone =>
    apply le_of_eq
    rcases hdone with hdone | hdone <;> simp only [hdone, Committer.cfs]
  | _ =>
    simp only [*, Multiset.cons_bind, Multiset.card_add, Multiset.card_cons, Multiset.coe_card, Cycle.cfs,
      Committer.cfs, LogStore.append_orphanedCfs, LogStore.takeOrphans_orphanedCfs, LogStore.rotate_orphanedCfs,
      LogStore.retain_orphanedCfs, List.length_append, List.length_map, List.length_cons, List.length_nil]
    omega

lemma drop_cases (h : PipelineStep p e p') {cf : String} (he : e = .dropped cf ∨ e = .dropFailed cf) :
    cf ∈ p.committer.droppingCfs ∧ trackedCfs p = {cf} + trackedCfs p' := by
  rcases he with rfl | rfl
  · cases h with
    | dropped hdropping hexists =>
      rw [hdropping]
      exact ⟨List.mem_cons_self, tracked_dropping hdropping⟩
  · cases h with
    | dropFailed hdropping =>
      rw [hdropping]
      exact ⟨List.mem_cons_self, tracked_dropping hdropping⟩

/-- Only the drop after a commit lets a column family go. -/
lemma released (h : PipelineStep p e p') {name : String} (hname : name ∈ trackedCfs p)
    (hgone : name ∉ trackedCfs p') : name ∈ p.committer.droppingCfs := by
  by_cases hdrop : ∃ cf, e = .dropped cf ∨ e = .dropFailed cf
  · obtain ⟨cf, he⟩ := hdrop
    obtain ⟨hcf, htracked⟩ := drop_cases h he
    rw [htracked, Multiset.mem_add, Multiset.mem_singleton] at hname
    rcases hname with rfl | hname
    · exact hcf
    · exact absurd hname hgone
  · have hkept : ∀ cf, e ≠ .dropped cf ∧ e ≠ .dropFailed cf := fun cf =>
      ⟨fun he => hdrop ⟨cf, Or.inl he⟩, fun he => hdrop ⟨cf, Or.inr he⟩⟩
    have hcard := card_tracked_le h hkept
    rcases tracked_cases h with heq | ⟨ts, -, -, heq⟩ | ⟨cf, heq⟩
    · exact absurd (heq ▸ hname) hgone
    · refine absurd ?_ hgone
      rw [heq, Multiset.mem_add]
      exact Or.inr hname
    · rw [heq, Multiset.card_add, Multiset.card_singleton] at hcard
      omega

/-- A column family in nobody's hands holds only rows of the table. -/
def UntrackedCommitted (p : Pipeline) : Prop := ∀ name ∉ trackedCfs p, ∀ r ∈ p.log name, r ∈ p.table

theorem UntrackedCommitted.step (huntracked : UntrackedCommitted p) (hinv : ConservationInv p)
    (hwrite : OnTimeWrite p e)
    (h : PipelineStep p e p') : UntrackedCommitted p' := by
  intro name hname r hr
  have htable : r ∈ p.table → r ∈ p'.table := by
    intro hmem
    rcases table_cases h with heq | ⟨batch, -, heq⟩
    · rwa [heq]
    · rw [heq]
      exact List.mem_append_left _ hmem
  have hold : r ∈ p.log name → r ∈ p'.table := by
    intro hlog
    by_cases htracked : name ∈ trackedCfs p
    · exact htable (hinv.committed name (released h htracked hname) r hlog)
    · exact htable (huntracked name htracked r hlog)
  rcases log_cases h with heq | ⟨cf, values, rfl, -, -, heq⟩ | ⟨cf, -, heq⟩
  · exact hold (heq ▸ hr)
  · rcases (ConservationInv.mem_log_write heq).mp hr with hlog | ⟨rfl, -⟩
    · exact hold hlog
    · refine absurd ?_ hname
      cases h
      exact hwrite.1
  · rw [heq] at hr
    by_cases hcf : name = cf
    · subst hcf
      rw [Function.update_self] at hr
      cases hr
    · rw [Function.update_of_ne hcf] at hr
      exact hold hr

/-- The running process has not lost track of a column family. -/
def Draining (pod : Pod) : Prop := PodInv pod ∧ ∀ s p, pod.phase = .up s p → UntrackedCommitted p

variable {pod pod' : Pod}

lemma orderly_regular {e : PodEvent} (h : pod.Orderly e) : pod.Regular e := by
  cases e with
  | work e draw => exact ⟨h.1, fun s p hup => noLateWrite_of_onTime (h.2 s p hup)⟩
  | writeFailed cf values => trivial
  | refused cf values => trivial
  | replyLost => trivial
  | _ => exact h.elim

theorem Draining.step {e : PodEvent} (hinv : Draining pod) (horderly : pod.Orderly e) (h : PodStep pod e pod')
    (hroom : pod'.ids + 1 < 2 ^ 64) : Draining pod' := by
  refine ⟨hinv.1.step (orderly_regular horderly) h hroom, ?_⟩
  cases h with
  | @work s p p' e draw hup h hrows =>
    rintro _ _ ⟨⟩
    exact (hinv.2 s p hup).step (hinv.1.up hup).conserved (horderly.2 s p hup) h
  | @writeFailed s p cf values rest hup hcall hlookup =>
    rintro _ _ ⟨⟩
    exact hinv.2 s p hup
  | @refused s p cf values rest hup hcall hcf =>
    rintro _ _ ⟨⟩
    exact hinv.2 s p hup
  | replyLost hup hcommitting hrows => exact hinv.2
  | _ => exact horderly.elim

variable {env : OpenEnv} {flushSizeBytes flushSizeJitterBytes : ℕ}

/-- After an open the engine's column families are all in somebody's hands. -/
lemma draining_of_open (hinv : PodInv pod) (hread : env.readOk = true) (hroom : pod'.ids + 1 < 2 ^ 64)
    (h : PodStep pod (.openStore env flushSizeBytes flushSizeJitterBytes) pod') : Draining pod' := by
  have hregular : pod.Regular (.openStore env flushSizeBytes flushSizeJitterBytes) := hread
  refine ⟨hinv.step hregular h hroom, ?_⟩
  cases h with
  | @opened disk records _ _ _ s decodes hdown hlist hnew =>
    rintro _ _ ⟨⟩ name hname r hr
    have hgrown := grown_of_opened (new_ok hnew).1
    rw [(hinv.down hdown).log_resume hdown hgrown] at hr
    have hengine := (hinv.down hdown).names name (List.ne_nil_of_mem hr)
    have hmem : name ∈ s.db := by
      by_contra hno
      rw [(hinv.down hdown).records_eq_nil (fun hold => hno (hgrown.mem hold))] at hr
      cases hr
    refine absurd ?_ hname
    rw [tracked_resume, Multiset.mem_add, Multiset.mem_singleton, Multiset.mem_coe]
    exact (new_covers hnew hlist).2.1 name hmem hengine
  | openFailed hdown hlist hnew =>
    intro s p hup
    rw [hdown] at hup
    cases hup

/-- Whatever happened to earlier processes: once a process in which nothing left a column family
behind has nothing left to flush and no record in its active column family, every acknowledged
record is a row of the table, or was skipped in a process in which it does not decode. -/
theorem drained_process_delivers_all {es fs : List PodEvent} {pod₀ pod₁ : Pod}
    (hrun : Run (Guarded PodStep Pod.Regular) Pod.empty es pod₀) (hread : env.readOk = true)
    (hopen : PodStep pod₀ (.openStore env flushSizeBytes flushSizeJitterBytes) pod₁)
    (hwork : Run (Guarded PodStep Pod.Orderly) pod₁ fs pod) (hroom : pod.ids < 2 ^ 64 - 1)
    (hup : pod.phase = .up s p) (hheld : p.heldCfs = 0) (hactive : p.log p.store.activeCf = []) :
    ∀ r ∈ pod.acked, r ∈ pod.table ∨ r ∈ pod.skipped := by
  have hopened := ids_le_of_step hopen
  have hworked : pod₁.ids ≤ pod.ids := hwork.monotone (fun _ _ _ h => ids_le_of_step h.2)
  have hstart := draining_of_open (pod_invariant hrun (by omega)) hread (by omega) hopen
  have hdraining : Draining pod := by
    refine hwork.invariant (fun pod => pod.ids < 2 ^ 64 - 1 → Draining pod) ?_ (fun _ => hstart) hroom
    rintro pod e pod' hinv ⟨horderly, h⟩ hroom'
    have hle := ids_le_of_step h
    exact (hinv (by omega)).step horderly h (by omega)
  have hinv := hdraining.1.up hup
  have htracked : trackedCfs p = {p.store.activeCf} := by rw [trackedCfs, hheld, add_zero]
  intro r hr
  apply row_or_skipped
  simp only [Pod.acked, Pod.committed, hup] at hr ⊢
  rcases hinv.acked r hr with hearlier | htable | ⟨name, hname⟩
  · exact List.mem_append_left _ hearlier
  · exact List.mem_append_right _ htable
  · refine List.mem_append_right _ (hdraining.2 s p hup name ?_ r hname)
    rw [htracked, Multiset.mem_singleton]
    rintro rfl
    rw [hactive] at hname
    cases hname

lemma InTime.orderly (pod : Pod) (s : RocksStore) (p : Pipeline) (e : PipelineEvent) (hup : pod.phase = .up s p)
    (h : InTime p e) : pod.Orderly (.work e 0) := by
  refine ⟨h.2.1, fun s' p' hup' => ?_⟩
  cases hup.symm.trans hup'
  exact h.2.2

def reopenedStore : RocksStore := { freshStore with db := ackedStore.db, counter := 2 }

def reopenEnv : OpenEnv := ⟨some ["active", "default"], true, true, 0⟩

/-- The second process finds the record that the first one acknowledged, and drains. -/
theorem drained_process_delivers_second :
    ∃ pod : Pod, pod.acked = [firstRecord] ∧ pod.skipped = [] ∧
      ∀ r ∈ pod.acked, r ∈ pod.table ∨ r ∈ pod.skipped := by
  let logs := (ackedPod.resume reopenedStore).store
  have hcycle : Run (Guarded PipelineStep InTime) (ackedPod.resume reopenedStore) (cycleEvents "active") _ :=
    @run_cycle logs [] 1 rfl (by decide) [firstRecord] (by decide)
  have hdropped : Run (Guarded PipelineStep InTime)
      ⟨logs.takeOrphans.rotate (rotatedCf 5), 0, 0, 0, [], .committing [⟨"active", [firstRecord]⟩], [], [], 1⟩
      [.committed, .dropped "active", .settled]
      ⟨(logs.takeOrphans.rotate (rotatedCf 5)).drop "active", 0, 0, 0, [], .idle, [firstRecord], [], 1⟩ := by
    refine .cons ⟨⟨trivial, trivial, trivial⟩, .committed rfl⟩ ?_
    refine .cons ⟨⟨trivial, trivial, trivial⟩, .dropped rfl (by decide)⟩ ?_
    exact .cons ⟨⟨trivial, trivial, trivial⟩, .settled (Or.inl rfl)⟩ (.nil _)
  have hnew : RocksStore.new (some ackedStore.db) reopenEnv 0 0 = .ok reopenedStore := rfl
  have hopen : PodStep ackedPod (.openStore reopenEnv 0 0) _ :=
    .opened (fun _ => true) rfl (listsCf_keys rfl) hnew
  have hwork : Run (Guarded PodStep Pod.Orderly) _ _ _ :=
    run_work InTime.orderly
      { ackedPod with decodes := fun _ => true, refound := ackedPod.refound ++ ackedPod.committedBefore }
      reopenedStore (hcycle.append hdropped)
  exact ⟨_, rfl, rfl,
    drained_process_delivers_all run_ackedPod rfl hopen hwork (by decide) rfl (by decide) (by decide)⟩

end MicewriterEngine.Proofs
