import MicewriterEngine.Proofs.PipelineInvariant

/-!
# Conservation of records

The rows on their way to the table are the contents of their column family, as long as no
batch is written to a column family that was read already. Then no record is lost and none
is committed twice, whatever fails.
-/

namespace MicewriterEngine.Proofs
open Lib

variable {p p' : Pipeline} {e : PipelineEvent}

lemma requests_spawned_cons (cf : String) (tasks : Multiset FlushTask) :
    (.spawned cf ::ₘ tasks).filterMap FlushTask.request = tasks.filterMap FlushTask.request :=
  Multiset.filterMap_cons_none _ _ rfl

lemma requests_failed_cons (cf : String) (tasks : Multiset FlushTask) :
    (.failed cf ::ₘ tasks).filterMap FlushTask.request = tasks.filterMap FlushTask.request :=
  Multiset.filterMap_cons_none _ _ rfl

lemma requests_iterated_cons (r : Request) (tasks : Multiset FlushTask) :
    (.iterated r ::ₘ tasks).filterMap FlushTask.request = {r} + tasks.filterMap FlushTask.request := by
  rw [Multiset.filterMap_cons_some FlushTask.request _ _ rfl, Multiset.singleton_add]

lemma requests_compiled_cons (r : Request) (tasks : Multiset FlushTask) :
    (.compiled r ::ₘ tasks).filterMap FlushTask.request = {r} + tasks.filterMap FlushTask.request := by
  rw [Multiset.filterMap_cons_some FlushTask.request _ _ rfl, Multiset.singleton_add]

lemma requests_spawned (cfs : List String) (tasks : Multiset FlushTask) :
    (((cfs.map .spawned : List FlushTask) : Multiset FlushTask) + tasks).filterMap FlushTask.request =
      tasks.filterMap FlushTask.request := by
  induction cfs with
  | nil => rw [List.map_nil, Multiset.coe_nil, zero_add]
  | cons cf cfs ih => rw [List.map_cons, ← Multiset.cons_coe, Multiset.cons_add, requests_spawned_cons, ih]

lemma coe_cons_request (r : Request) (l : List Request) :
    ((r :: l : List Request) : Multiset Request) = {r} + (l : Multiset Request) := by
  rw [Multiset.singleton_add, Multiset.cons_coe]

lemma requests_cases (h : PipelineStep p e p') :
    p'.requests ≤ p.requests ∨ ∃ cf, p'.requests = {⟨cf, p.log cf⟩} + p.requests := by
  unfold Pipeline.requests
  cases h with
  | spawn hcycle =>
    left
    rw [requests_spawned]
  | @iterate cf rest htask =>
    refine Or.inr ⟨cf, ?_⟩
    simp only [htask, requests_spawned_cons, requests_iterated_cons]
    abel
  | compiled htask => exact Or.inl (by simp only [htask, requests_iterated_cons, requests_compiled_cons, le_refl])
  | buildFailed htask => exact Or.inl (by simp only [htask, requests_spawned_cons, requests_failed_cons, le_refl])
  | compileFailed htask =>
    left
    simp only [htask, requests_iterated_cons, requests_failed_cons, add_assoc]
    exact Multiset.le_add_left _ _
  | sent htask =>
    left
    simp only [htask, requests_compiled_cons, ← Multiset.coe_add, Multiset.coe_singleton]
    exact le_of_eq (by abel)
  | sendFailed htask =>
    left
    simp only [htask, requests_compiled_cons, requests_failed_cons, add_assoc]
    exact Multiset.le_add_left _ _
  | retained htask => exact Or.inl (by simp only [htask, requests_failed_cons, le_refl])
  | recv hidle hqueue =>
    left
    simp only [hidle, hqueue, Committer.requests, coe_cons_request, Multiset.coe_nil]
    exact le_of_eq (by abel)
  | tryRecv hcollecting hqueue =>
    left
    simp only [hcollecting, hqueue, Committer.requests, coe_cons_request, ← Multiset.coe_add, Multiset.coe_nil]
    exact le_of_eq (by abel)
  | collected hcollecting hqueue => exact Or.inl (by simp only [hcollecting, Committer.requests, le_refl])
  | committed hcommitting =>
    left
    simp only [hcommitting, Committer.requests]
    exact add_le_add le_rfl (Multiset.zero_le _)
  | commitFailed hcommitting hrows =>
    left
    simp only [hcommitting, Committer.requests]
    exact add_le_add le_rfl (Multiset.zero_le _)
  | dropped hdropping hexists => exact Or.inl (by simp only [hdropping, Committer.requests, le_refl])
  | dropFailed hdropping => exact Or.inl (by simp only [hdropping, Committer.requests, le_refl])
  | kept hretaining => exact Or.inl (by simp only [hretaining, Committer.requests, le_refl])
  | settled hdone =>
    left
    rcases hdone with hdone | hdone <;> simp only [hdone, Committer.requests, le_refl]
  | _ => exact Or.inl le_rfl

lemma mem_requests_of_step (h : PipelineStep p e p') {q : Request} (hq : q ∈ p'.requests) :
    q ∈ p.requests ∨ q.rows = p.log q.cf := by
  rcases requests_cases h with hle | ⟨cf, heq⟩
  · exact Or.inl (Multiset.mem_of_le hle hq)
  · rw [heq, Multiset.mem_add, Multiset.mem_singleton] at hq
    rcases hq with rfl | hq
    · exact Or.inr rfl
    · exact Or.inl hq

lemma map_cf_filterMap_le (tasks : Multiset FlushTask) :
    (tasks.filterMap FlushTask.request).map Request.cf ≤ tasks.map FlushTask.cf := by
  induction tasks using Multiset.induction_on with
  | empty => exact le_rfl
  | cons t tasks ih =>
    rw [Multiset.map_cons]
    have hskip := ih.trans (Multiset.le_cons_self _ t.cf)
    cases t with
    | spawned cf => rwa [requests_spawned_cons]
    | failed cf => rwa [requests_failed_cons]
    | iterated r =>
      rw [requests_iterated_cons, Multiset.singleton_add, Multiset.map_cons]
      exact Multiset.cons_le_cons _ ih
    | compiled r =>
      rw [requests_compiled_cons, Multiset.singleton_add, Multiset.map_cons]
      exact Multiset.cons_le_cons _ ih

lemma Committer.requests_add_droppingCfs_le (c : Committer) :
    (c.requests.map Request.cf : Multiset String) + (c.droppingCfs : Multiset String) ≤ (c.cfs : Multiset String) := by
  cases c with
  | retaining cfs => exact Multiset.zero_le _
  | _ => simp [Committer.requests, Committer.droppingCfs, Committer.cfs]

lemma readCfs_le (p : Pipeline) : readCfs p ≤ p.heldCfs := by
  have htasks := map_cf_filterMap_le p.tasks
  have hcommitter := Committer.requests_add_droppingCfs_le p.committer
  calc readCfs p
      = (p.tasks.filterMap FlushTask.request).map Request.cf + (p.queue.map Request.cf : Multiset String) +
          ((p.committer.requests.map Request.cf : Multiset String) +
            (p.committer.droppingCfs : Multiset String)) := by
        simp only [readCfs, Pipeline.requests, Multiset.map_add, Multiset.map_coe]
        abel
    _ ≤ p.tasks.map FlushTask.cf + (p.queue.map Request.cf : Multiset String) +
          (p.committer.cfs : Multiset String) := add_le_add (add_le_add htasks le_rfl) hcommitter
    _ ≤ (p.store.orphanedCfs : Multiset String) + p.cycles.bind (fun c => (c.cfs : Multiset String)) +
          (p.tasks.map FlushTask.cf + (p.queue.map Request.cf : Multiset String) +
            (p.committer.cfs : Multiset String)) := Multiset.le_add_left _ _
    _ = p.heldCfs := by
        rw [Pipeline.heldCfs]
        abel

lemma mem_readCfs {name : String} :
    name ∈ readCfs p ↔ (∃ q ∈ p.requests, q.cf = name) ∨ name ∈ p.committer.droppingCfs := by
  rw [readCfs, Multiset.mem_add, Multiset.mem_map, Multiset.mem_coe]

lemma mem_tracked_of_read {name : String} (h : name ∈ readCfs p) : name ∈ trackedCfs p :=
  Multiset.mem_add.mpr (Or.inr (Multiset.mem_of_le (readCfs_le p) h))

namespace OwnershipInv

variable (hinv : OwnershipInv p)
include hinv

lemma active_notMem_held : p.store.activeCf ∉ p.heldCfs := by
  have hnodup := hinv.nodup
  rw [trackedCfs, Multiset.nodup_add] at hnodup
  exact Multiset.disjoint_left.mp hnodup.2.2 (Multiset.mem_singleton_self _)

lemma held_nodup : p.heldCfs.Nodup := by
  have hnodup := hinv.nodup
  rw [trackedCfs, Multiset.nodup_add] at hnodup
  exact hnodup.2.1

lemma request_notMem_dropping {q : Request} (hq : q ∈ p.requests) : q.cf ∉ p.committer.droppingCfs := by
  have hnodup := Multiset.nodup_of_le (readCfs_le p) hinv.held_nodup
  rw [readCfs, Multiset.nodup_add] at hnodup
  exact Multiset.disjoint_left.mp hnodup.2.2 (Multiset.mem_map_of_mem _ hq)

end OwnershipInv

/-! ### The invariant -/

/-- Each record has one place, and the requests carry the contents of their column families. -/
structure ConservationInv (p : Pipeline) : Prop where
  requests : ∀ q ∈ p.requests, q.rows = p.log q.cf
  log_nodup : ∀ name, (p.log name).Nodup
  log_unique : ∀ m n r, r ∈ p.log m → r ∈ p.log n → m = n
  table_nodup : p.table.Nodup
  uncommitted : ∀ name ∈ trackedCfs p, name ∉ p.committer.droppingCfs → ∀ r ∈ p.log name, r ∉ p.table
  committed : ∀ name ∈ p.committer.droppingCfs, ∀ r ∈ p.log name, r ∈ p.table
  acked : ∀ r ∈ p.acked, r ∈ p.table ∨ ∃ name, r ∈ p.log name
  numbered : ∀ r k, (r ∈ p.table ∨ ∃ name, r ∈ p.log name) → r.id = .appended k → k < p.nextId

namespace ConservationInv

lemma of_same_data (hinv : ConservationInv p) (h : PipelineStep p e p') (hlog : p'.log = p.log)
    (htable : p'.table = p.table) (hacked : p'.acked = p.acked) (hnext : p'.nextId = p.nextId)
    (hdropping : p'.committer.droppingCfs = p.committer.droppingCfs) : ConservationInv p' where
  requests q hq := by
    rw [hlog]
    exact (mem_requests_of_step h hq).elim (hinv.requests q) id
  log_nodup := hlog ▸ hinv.log_nodup
  log_unique := hlog ▸ hinv.log_unique
  table_nodup := htable ▸ hinv.table_nodup
  uncommitted name hname hkept r hr := by
    rw [hlog] at hr
    rw [htable]
    rw [hdropping] at hkept
    rcases mem_tracked_of_step h hname with hnil | hold
    · rw [hnil] at hr
      cases hr
    · exact hinv.uncommitted name hold hkept r hr
  committed := by
    rw [hdropping, hlog, htable]
    exact hinv.committed
  acked := by
    rw [hlog, htable, hacked]
    exact hinv.acked
  numbered := by
    rw [hlog, htable, hnext]
    exact hinv.numbered

lemma newRecords_fresh (hinv : ConservationInv p) {values : List Bytes} {r : Record} (hr : r ∈ p.newRecords values) :
    r ∉ p.table ∧ ∀ name, r ∉ p.log name := by
  obtain ⟨n, hlo, -, hid⟩ := id_newRecords hr
  constructor
  · intro hmem
    have hlt := hinv.numbered r n (Or.inl hmem) hid
    omega
  · intro name hmem
    have hlt := hinv.numbered r n (Or.inr ⟨name, hmem⟩) hid
    omega

variable {cf : String} {values : List Bytes}

lemma log_write (hstore : p'.store = p.store.append cf (p.newRecords values)) (hlookup : p.store.logs cf ≠ none) :
    p'.log = Function.update p.log cf (p.log cf ++ p.newRecords values) := by
  obtain ⟨log, hlog⟩ := Option.ne_none_iff_exists'.mp hlookup
  funext name
  simp only [Pipeline.log, hstore, LogStore.append, hlog, Option.map_some, Option.getD_some]
  by_cases hname : name = cf
  · subst hname
    simp only [Function.update_self, Option.getD_some]
  · simp only [Function.update_of_ne hname]
    rfl

lemma mem_log_write {name : String} {r : Record}
    (hlog : p'.log = Function.update p.log cf (p.log cf ++ p.newRecords values)) :
    r ∈ p'.log name ↔ r ∈ p.log name ∨ name = cf ∧ r ∈ p.newRecords values := by
  rw [hlog]
  by_cases hname : name = cf
  · subst hname
    rw [Function.update_self, List.mem_append]
    exact or_congr_right (by rw [and_iff_right rfl])
  · rw [Function.update_of_ne hname]
    exact ⟨Or.inl, fun h => h.resolve_right (fun hnew => hname hnew.1)⟩

lemma write (hinv : ConservationInv p) {rest : Multiset (String × List Bytes)} (hlookup : p.store.logs cf ≠ none)
    (hlate : cf ∉ readCfs p) :
    ConservationInv
      { p with
        store := p.store.append cf (p.newRecords values)
        appends := rest
        acked := p.acked ++ p.newRecords values
        nextId := p.nextId + values.length } := by
  generalize hp' : { p with
    store := p.store.append cf (p.newRecords values)
    appends := rest
    acked := p.acked ++ p.newRecords values
    nextId := p.nextId + values.length : Pipeline } = p'
  have hlog : p'.log = Function.update p.log cf (p.log cf ++ p.newRecords values) :=
    log_write (by rw [← hp']) hlookup
  have hrequests : p'.requests = p.requests := by rw [← hp']; rfl
  have htracked : trackedCfs p' = trackedCfs p := by rw [← hp']; rfl
  have hcommitter : p'.committer = p.committer := by rw [← hp']
  have htable : p'.table = p.table := by rw [← hp']
  have hacked : p'.acked = p.acked ++ p.newRecords values := by rw [← hp']
  have hnext : p'.nextId = p.nextId + values.length := by rw [← hp']
  have hread : ∀ name ∈ readCfs p, p'.log name = p.log name := by
    intro name hname
    have hne : name ≠ cf := fun heq => hlate (heq ▸ hname)
    rw [hlog, Function.update_of_ne hne]
  constructor
  case requests =>
    intro q hq
    rw [hrequests] at hq
    rw [hread q.cf (mem_readCfs.mpr (Or.inl ⟨q, hq, rfl⟩)), hinv.requests q hq]
  case log_nodup =>
    intro name
    rw [hlog]
    by_cases hname : name = cf
    · subst hname
      rw [Function.update_self]
      refine List.nodup_append'.mpr ⟨hinv.log_nodup name, nodup_newRecords p values, ?_⟩
      exact fun r hold hnew => (hinv.newRecords_fresh hnew).2 name hold
    · rw [Function.update_of_ne hname]
      exact hinv.log_nodup name
  case log_unique =>
    intro m n r hm hn
    rcases (mem_log_write hlog).mp hm with hm | ⟨rfl, hnew⟩
    · rcases (mem_log_write hlog).mp hn with hn | ⟨-, hnew⟩
      · exact hinv.log_unique m n r hm hn
      · exact absurd hm ((hinv.newRecords_fresh hnew).2 m)
    · rcases (mem_log_write hlog).mp hn with hn | ⟨rfl, -⟩
      · exact absurd hn ((hinv.newRecords_fresh hnew).2 n)
      · rfl
  case table_nodup =>
    rw [htable]
    exact hinv.table_nodup
  case uncommitted =>
    intro name hname hkept r hr
    rw [htracked] at hname
    rw [hcommitter] at hkept
    rw [htable]
    rcases (mem_log_write hlog).mp hr with hold | ⟨-, hnew⟩
    · exact hinv.uncommitted name hname hkept r hold
    · exact (hinv.newRecords_fresh hnew).1
  case committed =>
    intro name hname r hr
    rw [hcommitter] at hname
    rw [hread name (mem_readCfs.mpr (Or.inr hname))] at hr
    rw [htable]
    exact hinv.committed name hname r hr
  case acked =>
    intro r hr
    rw [hacked, List.mem_append] at hr
    rw [htable]
    rcases hr with hold | hnew
    · refine (hinv.acked r hold).imp_right ?_
      rintro ⟨name, hname⟩
      exact ⟨name, (mem_log_write hlog).mpr (Or.inl hname)⟩
    · exact Or.inr ⟨cf, (mem_log_write hlog).mpr (Or.inr ⟨rfl, hnew⟩)⟩
  case numbered =>
    intro r k hr hid
    rw [hnext]
    rw [htable] at hr
    have hold : r ∈ p.table ∨ (∃ name, r ∈ p.log name) → k < p.nextId + values.length := fun h =>
      Nat.lt_add_right _ (hinv.numbered r k h hid)
    rcases hr with htab | ⟨name, hname⟩
    · exact hold (Or.inl htab)
    · rcases (mem_log_write hlog).mp hname with hname | ⟨-, hnew⟩
      · exact hold (Or.inr ⟨name, hname⟩)
      · obtain ⟨n, -, hhi, hnid⟩ := id_newRecords hnew
        rw [hid, RecordId.appended.injEq] at hnid
        omega

lemma commit (hown : OwnershipInv p) (hinv : ConservationInv p) {batch : List Request}
    (hcommitting : p.committer = .committing batch) :
    ConservationInv
      { p with
        table := p.table ++ batch.flatMap Request.rows
        committer := .dropping (batch.map Request.cf) } := by
  have hbatch : ∀ q ∈ batch, q ∈ p.requests := by
    intro q hq
    rw [Pipeline.requests, hcommitting]
    exact Multiset.mem_add.mpr (Or.inr hq)
  have hrows : ∀ q ∈ batch, q.rows = p.log q.cf := fun q hq => hinv.requests q (hbatch q hq)
  have hnew : ∀ q ∈ batch, ∀ r ∈ q.rows, r ∉ p.table := by
    intro q hq r hr
    rw [hrows q hq] at hr
    have htracked := mem_tracked_of_read (mem_readCfs.mpr (Or.inl ⟨q, hbatch q hq, rfl⟩))
    exact hinv.uncommitted q.cf htracked (hown.request_notMem_dropping (hbatch q hq)) r hr
  have hcfs : (batch.map Request.cf).Nodup := by
    have hheld := hown.held_nodup
    rw [Pipeline.heldCfs, Multiset.nodup_add, hcommitting] at hheld
    exact Multiset.coe_nodup.mp hheld.2.1
  have hmem : ∀ r, r ∈ p.table ++ batch.flatMap Request.rows → r ∈ p.table ∨ ∃ name, r ∈ p.log name := by
    intro r hr
    refine (List.mem_append.mp hr).imp_right (fun hr => ?_)
    obtain ⟨q, hq, hrq⟩ := List.mem_flatMap.mp hr
    exact ⟨q.cf, hrows q hq ▸ hrq⟩
  constructor
  case requests =>
    intro q hq
    refine hinv.requests q (Multiset.mem_of_le ?_ hq)
    exact add_le_add le_rfl (Multiset.zero_le _)
  case log_nodup => exact hinv.log_nodup
  case log_unique => exact hinv.log_unique
  case table_nodup =>
    refine List.nodup_append'.mpr ⟨hinv.table_nodup, List.nodup_flatMap.mpr ⟨?_, ?_⟩, ?_⟩
    · intro q hq
      rw [hrows q hq]
      exact hinv.log_nodup q.cf
    · refine (List.pairwise_map.mp hcfs).imp_of_mem ?_
      intro q q' hq hq' hne r hr hr'
      rw [hrows q hq] at hr
      rw [hrows q' hq'] at hr'
      exact hne (hinv.log_unique q.cf q'.cf r hr hr')
    · intro r hold hr
      obtain ⟨q, hq, hrq⟩ := List.mem_flatMap.mp hr
      exact hnew q hq r hrq hold
  case uncommitted =>
    intro name hname hkept r hr htable
    have htracked : name ∈ trackedCfs p := by
      rw [trackedCfs, Pipeline.heldCfs, hcommitting]
      exact hname
    rcases List.mem_append.mp htable with hold | hr'
    · refine hinv.uncommitted name htracked ?_ r hr hold
      rw [hcommitting]
      exact List.not_mem_nil
    · obtain ⟨q, hq, hrq⟩ := List.mem_flatMap.mp hr'
      rw [hrows q hq] at hrq
      exact hkept (List.mem_map.mpr ⟨q, hq, hinv.log_unique q.cf name r hrq hr⟩)
  case committed =>
    intro name hname r hr
    obtain ⟨q, hq, rfl⟩ := List.mem_map.mp hname
    exact List.mem_append.mpr (Or.inr (List.mem_flatMap.mpr ⟨q, hq, (hrows q hq).symm ▸ hr⟩))
  case acked =>
    intro r hr
    exact (hinv.acked r hr).imp_left (List.mem_append_left _)
  case numbered =>
    intro r k hr hid
    exact hinv.numbered r k (hr.elim (hmem r) Or.inr) hid

lemma dropping_of_tracked (hown : OwnershipInv p) {cfs : List String} (hdropping : p.committer = .dropping (cf :: cfs))
    {name : String} (hname : name ∈ trackedCfs { p with committer := .dropping cfs }) : name ≠ cf := by
  rintro rfl
  have hnodup := hown.nodup
  rw [tracked_dropping hdropping, Multiset.nodup_add] at hnodup
  exact Multiset.disjoint_left.mp hnodup.2.2 (Multiset.mem_singleton_self _) hname

lemma dropFailed (hown : OwnershipInv p) (hinv : ConservationInv p) {cfs : List String}
    (hdropping : p.committer = .dropping (cf :: cfs)) : ConservationInv { p with committer := .dropping cfs } := by
  have hrequests : Pipeline.requests { p with committer := .dropping cfs } = p.requests := by
    unfold Pipeline.requests
    simp only [hdropping, Committer.requests]
  constructor
  case requests =>
    intro q hq
    exact hinv.requests q (hrequests ▸ hq)
  case log_nodup => exact hinv.log_nodup
  case log_unique => exact hinv.log_unique
  case table_nodup => exact hinv.table_nodup
  case uncommitted =>
    intro name hname hkept r hr
    have hne := dropping_of_tracked hown hdropping hname
    have hold : name ∈ trackedCfs p := by
      rw [tracked_dropping hdropping]
      exact Multiset.mem_add.mpr (Or.inr hname)
    refine hinv.uncommitted name hold ?_ r hr
    rw [hdropping]
    exact fun hmem => (List.mem_cons.mp hmem).elim hne hkept
  case committed =>
    intro name hname r hr
    refine hinv.committed name ?_ r hr
    rw [hdropping]
    exact List.mem_cons_of_mem _ hname
  case acked => exact hinv.acked
  case numbered => exact hinv.numbered

lemma drop (hinv : ConservationInv p) (huntracked : cf ∉ trackedCfs p) (hcommitted : ∀ r ∈ p.log cf, r ∈ p.table) :
    ConservationInv { p with store := p.store.drop cf } := by
  generalize hp' : { p with store := p.store.drop cf : Pipeline } = p'
  have hlog : p'.log = Function.update p.log cf [] := by
    funext name
    rw [← hp']
    simp only [Pipeline.log, LogStore.drop]
    by_cases hname : name = cf
    · subst hname
      rw [Function.update_self, Function.update_self, Option.getD_none]
    · rw [Function.update_of_ne hname, Function.update_of_ne hname]
      rfl
  have hne : ∀ name r, r ∈ p'.log name → name ≠ cf ∧ r ∈ p.log name := by
    intro name r hr
    rw [hlog] at hr
    by_cases hname : name = cf
    · subst hname
      rw [Function.update_self] at hr
      cases hr
    · rw [Function.update_of_ne hname] at hr
      exact ⟨hname, hr⟩
  have hkept : ∀ name r, r ∈ p.log name → r ∈ p.table ∨ ∃ name, r ∈ p'.log name := by
    intro name r hr
    by_cases hname : name = cf
    · exact Or.inl (hcommitted r (hname ▸ hr))
    · refine Or.inr ⟨name, ?_⟩
      rw [hlog, Function.update_of_ne hname]
      exact hr
  have htable : p'.table = p.table := by rw [← hp']
  have htracked : trackedCfs p' = trackedCfs p := by rw [← hp']; rfl
  have hcommitter : p'.committer = p.committer := by rw [← hp']
  constructor
  case requests =>
    intro q hq
    have hold : q ∈ p.requests := by
      rw [← hp'] at hq
      exact hq
    have hread := mem_tracked_of_read (mem_readCfs.mpr (Or.inl ⟨q, hold, rfl⟩))
    have hcf : q.cf ≠ cf := fun heq => huntracked (heq ▸ hread)
    rw [hlog, Function.update_of_ne hcf, hinv.requests q hold]
  case log_nodup =>
    intro name
    rw [hlog]
    by_cases hname : name = cf
    · subst hname
      rw [Function.update_self]
      exact List.nodup_nil
    · rw [Function.update_of_ne hname]
      exact hinv.log_nodup name
  case log_unique =>
    intro m n r hm hn
    exact hinv.log_unique m n r (hne m r hm).2 (hne n r hn).2
  case table_nodup =>
    rw [htable]
    exact hinv.table_nodup
  case uncommitted =>
    intro name hname hdrop r hr
    rw [htracked] at hname
    rw [hcommitter] at hdrop
    rw [htable]
    exact hinv.uncommitted name hname hdrop r (hne name r hr).2
  case committed =>
    intro name hname r hr
    rw [hcommitter] at hname
    rw [htable]
    exact hinv.committed name hname r (hne name r hr).2
  case acked =>
    intro r hr
    have hold : r ∈ p.acked := by
      rw [← hp'] at hr
      exact hr
    rw [htable]
    rcases hinv.acked r hold with htab | ⟨name, hname⟩
    · exact Or.inl htab
    · exact hkept name r hname
  case numbered =>
    intro r k hr hid
    rw [htable] at hr
    have hold : r ∈ p.table ∨ ∃ name, r ∈ p.log name :=
      hr.imp_right (fun hlog => hlog.imp (fun name hname => (hne name r hname).2))
    have hlt := hinv.numbered r k hold hid
    rw [← hp']
    exact hlt

theorem step (hown : OwnershipInv p) (hinv : ConservationInv p) (hlate : NoLateWrite p e) (h : PipelineStep p e p') :
    ConservationInv p' := by
  have hstep := h
  cases h with
  | write hcall hlookup => exact hinv.write hlookup hlate
  | committed hcommitting => exact hinv.commit hown hcommitting
  | @dropFailed cf cfs hdropping => exact hinv.dropFailed hown hdropping
  | @dropped cf cfs hdropping hexists =>
    refine (hinv.dropFailed hown hdropping).drop (fun hmem => ?_) (fun r hr => ?_)
    · exact dropping_of_tracked hown hdropping hmem rfl
    · refine hinv.committed cf ?_ r hr
      rw [hdropping]
      exact List.mem_cons_self
  | @rotate cfs rest ts hcycle hfresh =>
    refine hinv.of_same_data hstep ?_ rfl rfl rfl rfl
    funext name
    simp only [Pipeline.log, LogStore.rotate]
    by_cases hname : name = rotatedCf ts
    · subst hname
      rw [Function.update_self, hfresh, Option.getD_some, Option.getD_none]
    · rw [Function.update_of_ne hname]
  | recv hidle hqueue => exact hinv.of_same_data hstep rfl rfl rfl rfl (by rw [hidle]; rfl)
  | tryRecv hcollecting hqueue => exact hinv.of_same_data hstep rfl rfl rfl rfl (by rw [hcollecting]; rfl)
  | collected hcollecting hqueue => exact hinv.of_same_data hstep rfl rfl rfl rfl (by rw [hcollecting]; rfl)
  | commitFailed hcommitting hrows => exact hinv.of_same_data hstep rfl rfl rfl rfl (by rw [hcommitting]; rfl)
  | kept hretaining => exact hinv.of_same_data hstep rfl rfl rfl rfl (by rw [hretaining]; rfl)
  | settled hdone =>
    refine hinv.of_same_data hstep rfl rfl rfl rfl ?_
    rcases hdone with hdone | hdone <;> rw [hdone] <;> rfl
  | _ => exact hinv.of_same_data hstep rfl rfl rfl rfl rfl

end ConservationInv

end MicewriterEngine.Proofs
