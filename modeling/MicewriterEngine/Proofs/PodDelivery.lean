import MicewriterEngine.Proofs.PodInvariant

/-!
# Delivery across processes

Whatever ends a process, the next one finds every acknowledged record that was not
committed yet. A record is committed again only if a process finds it although it was
committed before, or if the reply to a commit was lost.
-/

namespace MicewriterEngine.Proofs
open Lib

variable {pod pod' : Pod} {p p' : Pipeline} {e : PipelineEvent} {s : RocksStore} {r : Record}

/-- The committed records of a process became rows or were skipped. -/
lemma committed_perm (pod : Pod) (db : Db) (p : Pipeline) (acked : List Record) :
    (pod.ended db p acked).earlierCommitted.Perm (pod.earlierCommitted ++ p.table) := by
  have hsplit : (rowsOf pod.decodes p.table ++ skippedOf pod.decodes p.table).Perm p.table :=
    List.filter_append_perm _ p.table
  have hswap := List.perm_append_comm_assoc (rowsOf pod.decodes p.table) pod.earlierSkipped
    (skippedOf pod.decodes p.table)
  simp only [Pod.earlierCommitted, Pod.ended, List.append_assoc]
  exact (hswap.trans (hsplit.append_left _)).append_left _

lemma count_committed_le (hinv : UpInv pod s p) (r : Record) :
    (pod.earlierCommitted ++ p.table).count r ≤ pod.refound.count r + 1 := by
  rw [List.count_append]
  by_cases hr : r ∈ p.table
  · have hearlier := hinv.present r (Or.inl hr)
    have hnow := List.nodup_iff_count_le_one.mp hinv.conserved.table_nodup r
    omega
  · rw [List.count_eq_zero_of_not_mem hr, Nat.add_zero]
    exact hinv.copies r

lemma logs_getD (hrep : Represents s p) (name : String) :
    (s.db.logs name).getD [] = (p.log name).map Record.value := by
  have hlogs : s.db.logs name = (p.store.logs name).map (List.map Record.value) :=
    congrFun (congrArg LogStore.logs hrep.store) name
  rw [hlogs, Pipeline.log]
  cases p.store.logs name with
  | none => rfl
  | some log => rfl

lemma UpInv.ended (hinv : UpInv pod s p) {acked : List Record} (hacked : ∀ r ∈ acked, r ∈ p.acked) :
    PodInv (pod.ended s.db p acked) := by
  change DownInv (pod.ended s.db p acked) (some s.db) p.log
  constructor
  case contents => exact logs_getD hinv.represents
  case names => exact hinv.names.logs
  case keys => exact hinv.keys
  case log_nodup => exact hinv.conserved.log_nodup
  case log_unique => exact hinv.conserved.log_unique
  case numbered =>
    rintro r k (hr | hr) hk
    · rcases List.mem_append.mp ((committed_perm pod s.db p acked).mem_iff.mp hr) with hearlier | hnow
      · exact hinv.numbered r hearlier k hk
      · exact hinv.conserved.numbered r k (Or.inl hnow) hk
    · exact hinv.conserved.numbered r k (Or.inr hr) hk
  case copies =>
    intro r
    rw [(committed_perm pod s.db p acked).count_eq]
    exact count_committed_le hinv r
  case acked =>
    intro r hr
    have hmem : r ∈ pod.earlierAcked ++ p.acked :=
      List.mem_append.mpr ((List.mem_append.mp hr).imp_right (hacked r))
    rw [(committed_perm pod s.db p acked).mem_iff, List.mem_append, or_assoc]
    exact hinv.acked r hmem

variable {disk : Option Db} {records : String → List Record} {env : OpenEnv}
  {flushSizeBytes flushSizeJitterBytes : ℕ}

lemma Grown.mem {old db : Db} (hgrown : Grown old db) {name : String} (hname : name ∈ old) : name ∈ db :=
  mem_of_grown hgrown hname

lemma DownInv.records_eq_nil (hinv : DownInv pod disk records) {name : String} (hname : name ∉ disk.getD ∅) :
    records name = [] := by
  have hcontents := hinv.contents name
  rw [Db.logs_eq_none hname, Option.getD_none] at hcontents
  exact List.map_eq_nil_iff.mp hcontents.symm

lemma DownInv.log_resume (hinv : DownInv pod disk records) (hdown : pod.phase = .down disk records)
    (hgrown : Grown (disk.getD ∅) s.db) (name : String) : (pod.resume s).log name = records name := by
  have hlog : pod.log = records := by rw [Pod.log, hdown]
  by_cases hname : name ∈ s.db
  · simp only [Pipeline.log, Pod.resume, if_pos hname, hlog, Option.getD_some]
  · have hold : name ∉ disk.getD ∅ := fun hmem => hname (hgrown.mem hmem)
    simp only [Pipeline.log, Pod.resume, if_neg hname, Option.getD_none, hinv.records_eq_nil hold]

lemma tracked_resume (pod : Pod) (s : RocksStore) :
    trackedCfs (pod.resume s) = {s.activeCf} + (s.orphanedCfs : Multiset String) := by
  unfold trackedCfs Pipeline.heldCfs
  simp [Pod.resume, Committer.cfs]

lemma resume_own (hnew : RocksStore.new disk env flushSizeBytes flushSizeJitterBytes = .ok s)
    (hlist : Db.ListsCf disk env.listCf) : OwnershipInv (pod.resume s) := by
  obtain ⟨hnodup, -, horphans, -⟩ := new_covers hnew hlist
  have hexists : ∀ name ∈ s.db, (pod.resume s).store.logs name ≠ none := by
    intro name hname
    simp only [Pod.resume, if_pos hname]
    exact Option.some_ne_none _
  constructor
  case nodup =>
    rw [tracked_resume, add_comm, ← Multiset.coe_singleton, Multiset.coe_add, Multiset.coe_nodup]
    exact hnodup
  case exist =>
    intro name hname
    rw [tracked_resume, Multiset.mem_add, Multiset.mem_singleton] at hname
    rcases hname with rfl | hname
    · exact (new_active_exists hnew hlist).imp_left (hexists _)
    · exact Or.inl (hexists name (horphans name hname).1)

lemma DownInv.resume_conserved (hinv : DownInv pod disk records) (hdown : pod.phase = .down disk records)
    (hgrown : Grown (disk.getD ∅) s.db) : ConservationInv (pod.resume s) := by
  have hlog := hinv.log_resume hdown hgrown
  have hids : (pod.resume s).nextId = pod.earlierIds := by
    simp only [Pod.resume, Pod.ids, hdown]
  constructor
  case requests =>
    intro q hq
    cases Multiset.notMem_zero q hq
  case log_nodup =>
    intro name
    rw [hlog]
    exact hinv.log_nodup name
  case log_unique =>
    intro m n r hm hn
    rw [hlog] at hm hn
    exact hinv.log_unique m n r hm hn
  case table_nodup => exact List.nodup_nil
  case uncommitted => exact fun _ _ _ _ _ => List.not_mem_nil
  case committed =>
    intro name hname
    cases hname
  case acked =>
    intro r hr
    cases hr
  case numbered =>
    rintro r k (hr | ⟨name, hname⟩) hk
    · cases hr
    · rw [hlog] at hname
      rw [hids]
      exact hinv.numbered r k (Or.inr ⟨name, hname⟩) hk

lemma DownInv.resume_represents (hinv : DownInv pod disk records) (hdown : pod.phase = .down disk records)
    (hnew : RocksStore.new disk env flushSizeBytes flushSizeJitterBytes = .ok s) (hlist : Db.ListsCf disk env.listCf)
    (hactive : ∀ cf, s.db.lookup s.activeCf = some cf → KeysBelow cf s.counter) : Represents s (pod.resume s) := by
  have hgrown := grown_of_opened (new_ok hnew).1
  have hlog : pod.log = records := by rw [Pod.log, hdown]
  constructor
  case store =>
    unfold RocksStore.toLogStore LogStore.map
    congr 1
    funext name
    have hcontents := hinv.contents name
    rw [← hgrown.logs_getD] at hcontents
    by_cases hname : name ∈ s.db
    · obtain ⟨cf, hcf⟩ := Option.isSome_iff_exists.mp (AList.lookup_isSome.mpr hname)
      rw [Db.logs_eq_some hcf, Option.getD_some] at hcontents
      simp only [Pod.resume, if_pos hname, hlog, Option.map_some, Db.logs_eq_some hcf, hcontents]
    · simp only [Pod.resume, if_neg hname, Option.map_none, Db.logs_eq_none hname]
  case keys =>
    rintro name cf (rfl | ⟨values, hmem⟩) hcf
    · exact hactive cf hcf
    · cases Multiset.notMem_zero _ hmem
  case tracked =>
    obtain ⟨-, -, horphans, -, hengine, -⟩ := new_covers hnew hlist
    rw [tracked_resume, Multiset.mem_add, Multiset.mem_singleton, Multiset.mem_coe]
    rintro (heq | hmem)
    · have hdefault : IsEngineCf Db.defaultCf := heq ▸ hengine
      exact not_isEngineCf_defaultCf hdefault
    · exact not_isEngineCf_defaultCf (horphans _ hmem).2

/-- A record that is found again is counted. -/
lemma DownInv.count_refound (hinv : DownInv pod disk records) (hdown : pod.phase = .down disk records)
    {name : String} (hr : r ∈ records name) :
    pod.earlierCommitted.count r ≤ (pod.refound ++ pod.committedBefore).count r := by
  by_cases hold : r ∈ pod.earlierCommitted
  · have hdisk : name ∈ disk.getD ∅ := by
      by_contra hno
      rw [hinv.records_eq_nil hno] at hr
      cases hr
    have hfound : r ∈ pod.committedBefore := by
      simp only [Pod.committedBefore, Pod.db, Pod.log, Pod.committed, hdown, List.mem_filter, List.mem_flatMap,
        decide_eq_true_eq]
      exact ⟨⟨name, AList.mem_keys.mp hdisk, hr⟩, hold⟩
    have hcopies := hinv.copies r
    have hcount := List.count_pos_iff.mpr hfound
    rw [List.count_append]
    omega
  · rw [List.count_eq_zero_of_not_mem hold]
    exact Nat.zero_le _

theorem DownInv.opened (hinv : DownInv pod disk records) (hdown : pod.phase = .down disk records)
    (hnew : RocksStore.new disk env flushSizeBytes flushSizeJitterBytes = .ok s) (hlist : Db.ListsCf disk env.listCf)
    (hread : env.readOk = true) (hroom : pod.earlierIds + 1 < 2 ^ 64) (decodes : Bytes → Bool) :
    UpInv { pod with
      phase := .up s (pod.resume s), decodes := decodes, refound := pod.refound ++ pod.committedBefore } s
      (pod.resume s) := by
  have hgrown := grown_of_opened (new_ok hnew).1
  have hlog := hinv.log_resume hdown hgrown
  have hids : (pod.resume s).nextId = pod.earlierIds := by
    simp only [Pod.resume, Pod.ids, hdown]
  have hkeys : StoredKeysBelow s.db (pod.earlierIds + 1) := hgrown.keysBelow hinv.keys
  obtain ⟨hcounter, hactive⟩ := counter_of_opened hnew hread hkeys hroom
  constructor
  case own => exact resume_own hnew hlist
  case conserved => exact hinv.resume_conserved hdown hgrown
  case represents => exact hinv.resume_represents hdown hnew hlist hactive
  case names =>
    refine ⟨(new_covers hnew hlist).2.2.2.2.1, fun name values hmem => ?_, fun name hname => ?_⟩
    · cases Multiset.notMem_zero _ hmem
    · rw [hlog] at hname
      exact hinv.names name hname
  case keys =>
    rw [hids]
    exact hkeys
  case counter =>
    rw [hids]
    exact hcounter
  case numbered =>
    intro r hr k hk
    rw [hids]
    exact hinv.numbered r k (Or.inl hr) hk
  case copies =>
    intro r
    rw [List.count_append]
    exact (hinv.copies r).trans (by omega)
  case present =>
    rintro r (hr | ⟨name, hr⟩)
    · cases hr
    · rw [hlog] at hr
      exact hinv.count_refound hdown hr
  case acked =>
    intro r hr
    rw [Pod.resume, List.append_nil] at hr
    refine (hinv.acked r hr).imp_right ?_
    rintro ⟨name, hname⟩
    exact Or.inr ⟨name, (hlog name).symm ▸ hname⟩

lemma DownInv.crashInOpen (hinv : DownInv pod disk records) (names : List String) :
    DownInv { pod with phase := .down (some ((disk.getD ∅).createMissing names)) records }
      (some ((disk.getD ∅).createMissing names)) records where
  contents name := by
    rw [Option.getD_some, (grown_createMissing (disk.getD ∅) names).logs_getD]
    exact hinv.contents name
  names := hinv.names
  keys := (grown_createMissing (disk.getD ∅) names).keysBelow hinv.keys
  log_nodup := hinv.log_nodup
  log_unique := hinv.log_unique
  numbered := hinv.numbered
  copies := hinv.copies
  acked := hinv.acked

/-! ### Runs of a pod -/

lemma ids_le_of_step {e : PodEvent} (h : PodStep pod e pod') : pod.ids ≤ pod'.ids := by
  have hup_ids : ∀ {s : RocksStore} {p : Pipeline}, pod.phase = .up s p → pod.ids = p.nextId := by
    intro s p hup
    rw [Pod.ids, hup]
  cases h with
  | work draw hup h hrows => exact (hup_ids hup).trans_le (nextId_le_of_step _ _ _ h)
  | writeFailed hup hcall hlookup => exact (hup_ids hup).trans_le (Nat.le_add_right _ _)
  | refused hup hcall hcf => exact (hup_ids hup).le
  | setupFailed hup hcycle => exact (hup_ids hup).le
  | panicked hup htask hcompiling => exact (hup_ids hup).le
  | readFailed read hup htask => exact (hup_ids hup).le
  | replyLost hup hcommitting hrows => exact le_rfl
  | crash hup => exact (hup_ids hup).le
  | crashIn draw hup h => exact (hup_ids hup).trans_le (nextId_le_of_step _ _ _ h)
  | opened decodes hdown hlist hnew => exact le_rfl
  | openFailed hdown hlist hnew => exact le_rfl
  | crashInOpen created hdown hlist hopen =>
    refine le_of_eq ?_
    rw [Pod.ids, hdown]
    rfl

lemma UpInv.running {pod' : Pod} (hinv : UpInv pod s p) (hup : pod'.phase = .up s p)
    (htable : pod'.earlierCommitted = pod.earlierCommitted) (hacked : pod'.earlierAcked = pod.earlierAcked)
    (hrefound : pod'.refound = pod.refound) : PodInv pod' := by
  unfold PodInv
  rw [hup]
  exact ⟨hinv.own, hinv.conserved, hinv.represents, hinv.names, hinv.keys, hinv.counter, htable ▸ hinv.numbered,
    htable ▸ hrefound ▸ hinv.copies, htable ▸ hrefound ▸ hinv.present, htable ▸ hacked ▸ hinv.acked⟩

lemma shrunk_appends {call : String × List Bytes} {rest : Multiset (String × List Bytes)}
    (hcall : p.appends = call ::ₘ rest) (allotted : ℕ) :
    Shrunk p { p with appends := rest, nextId := p.nextId + allotted } :=
  ⟨rfl, rfl, rfl, rfl, hcall ▸ Multiset.le_cons_self _ _, le_rfl, le_rfl, Nat.le_add_right _ _⟩

lemma shrunk_cycles {c : Cycle} {rest : Multiset Cycle} (hcycle : p.cycles = c ::ₘ rest) :
    Shrunk p { p with cycles := rest } := by
  refine ⟨rfl, rfl, rfl, rfl, le_rfl, le_rfl, ?_, le_rfl⟩
  unfold trackedCfs Pipeline.heldCfs
  rw [hcycle, Multiset.cons_bind]
  refine add_le_add le_rfl (add_le_add (add_le_add (add_le_add (add_le_add le_rfl ?_) le_rfl) le_rfl) le_rfl)
  exact Multiset.le_add_left _ _

lemma shrunk_tasks {t : FlushTask} {rest : Multiset FlushTask} (htask : p.tasks = t ::ₘ rest) :
    Shrunk p { p with tasks := rest } := by
  have hle : rest ≤ p.tasks := htask ▸ Multiset.le_cons_self rest t
  refine ⟨rfl, rfl, rfl, rfl, le_rfl, ?_, ?_, le_rfl⟩
  · exact add_le_add (add_le_add (Multiset.filterMap_le_filterMap _ hle) le_rfl) le_rfl
  · unfold trackedCfs Pipeline.heldCfs
    refine add_le_add le_rfl (add_le_add (add_le_add (add_le_add le_rfl ?_) le_rfl) le_rfl)
    exact Multiset.map_le_map hle

lemma UpInv.writeFailed (hinv : UpInv pod s p) {cf : String} {values : List Bytes}
    {rest : Multiset (String × List Bytes)} (hcall : p.appends = (cf, values) ::ₘ rest)
    (hlookup : p.store.logs cf ≠ none) (hroom : p.nextId + values.length + 1 < 2 ^ 64) :
    UpInv pod (s.writeBatch cf values false).2
      { p with appends := rest, nextId := p.nextId + values.length } := by
  have hcount := hinv.counter
  have hmem : cf ∈ s.db := hinv.represents.mem_db.mpr hlookup
  rcases writeBatch_cases s cf values false with ⟨hno, -⟩ | ⟨-, s', hs', hskip⟩ | ⟨cf', full, s', hcf', hs', -⟩
  · exact absurd hmem hno
  · obtain ⟨hnext, -⟩ := foldl_putCf values ⟨s.counter, 0, []⟩ (by dsimp only; omega)
    have hcounter : s'.counter = s.counter + values.length := hskip.counter.trans hnext
    rw [hs']
    refine hinv.shrink (shrunk_appends hcall _) hskip.db ?_ (by dsimp only; omega) (by dsimp only; omega)
    unfold RocksStore.toLogStore
    rw [hskip.db, hskip.activeCf, hskip.orphanedCfs]
  · unfold RocksStore.writeBatch Db.cfHandle at hs'
    rw [hcf'] at hs'
    cases hs'

theorem PodInv.step {e : PodEvent} (hinv : PodInv pod) (hregular : pod.Regular e) (h : PodStep pod e pod')
    (hroom : pod'.ids + 1 < 2 ^ 64) : PodInv pod' := by
  cases h with
  | work draw hup h hrows =>
    exact ((hinv.up hup).step (fun _ => draw) hregular.1 (hregular.2 _ _ hup) h hroom).running rfl rfl rfl rfl
  | writeFailed hup hcall hlookup => exact ((hinv.up hup).writeFailed hcall hlookup hroom).running rfl rfl rfl rfl
  | refused hup hcall hcf =>
    exact ((hinv.up hup).shrink (shrunk_appends hcall 0) rfl rfl le_rfl (hinv.up hup).counter).running rfl rfl rfl rfl
  | setupFailed hup hcycle =>
    exact ((hinv.up hup).shrink (shrunk_cycles hcycle) rfl rfl le_rfl (hinv.up hup).counter).running rfl rfl rfl rfl
  | panicked hup htask hcompiling =>
    exact ((hinv.up hup).shrink (shrunk_tasks htask) rfl rfl le_rfl (hinv.up hup).counter).running rfl rfl rfl rfl
  | readFailed read hup htask => exact hregular.elim
  | replyLost hup hcommitting hrows => exact (hinv.up hup).running hup rfl rfl rfl
  | crash hup => exact (hinv.up hup).ended (fun _ => id)
  | crashIn draw hup h =>
    have hnext := (hinv.up hup).step (fun _ => draw) hregular.1 (hregular.2 _ _ hup) h hroom
    refine hnext.ended (fun r hr => ?_)
    rcases acked_cases h with heq | ⟨cf, values, -, -, heq⟩
    · exact heq ▸ hr
    · rw [heq]
      exact List.mem_append_left _ hr
  | opened decodes hdown hlist hnew =>
    refine (hinv.down hdown).opened hdown hnew hlist hregular ?_ decodes
    simpa [Pod.ids, Pod.resume, hdown] using hroom
  | openFailed hdown hlist hnew => exact hinv
  | crashInOpen created hdown hlist hopen => exact (hinv.down hdown).crashInOpen _

lemma podInv_empty : PodInv Pod.empty := by
  change DownInv Pod.empty none (fun _ => [])
  constructor
  case contents => exact fun _ => rfl
  case names => exact fun _ hname => absurd rfl hname
  case keys => exact fun _ _ hcf => nomatch hcf
  case log_nodup => exact fun _ => List.nodup_nil
  case log_unique => exact fun _ _ _ hm => nomatch hm
  case numbered =>
    rintro r k (hr | ⟨name, hr⟩) <;> cases hr
  case copies => exact fun _ => Nat.zero_le _
  case acked => exact fun _ hr => nomatch hr

theorem pod_invariant {es : List PodEvent} (hrun : Run (Guarded PodStep Pod.Regular) Pod.empty es pod)
    (hroom : pod.ids < 2 ^ 64 - 1) : PodInv pod := by
  refine hrun.invariant (fun pod => pod.ids < 2 ^ 64 - 1 → PodInv pod) ?_ (fun _ => podInv_empty) hroom
  rintro pod e pod' hinv ⟨hregular, h⟩ hroom'
  have hle := ids_le_of_step h
  exact (hinv (by omega)).step hregular h (by omega)

lemma noLateWrite_of_onTime (h : OnTimeWrite p e) : NoLateWrite p e := by
  cases e with
  | write cf values => exact h.2
  | _ => trivial

/-- A step that succeeds, with a clock reading in range and no late write. -/
def InTime (p : Pipeline) (e : PipelineEvent) : Prop := e.Succeeds ∧ e.ClockInRange ∧ OnTimeWrite p e

lemma InTime.regular (pod : Pod) (s : RocksStore) (p : Pipeline) (e : PipelineEvent) (hup : pod.phase = .up s p)
    (h : InTime p e) : pod.Regular (.work e 0) := by
  refine ⟨h.2.1, fun s' p' hup' => ?_⟩
  cases hup.symm.trans hup'
  exact noLateWrite_of_onTime h.2.2

/-- The steps of the pipeline are steps of the running pod. -/
lemma run_work {allowed : Pod → PodEvent → Prop}
    (hallowed : ∀ pod s p e, pod.phase = .up s p → InTime p e → allowed pod (.work e 0)) (pod : Pod) (s : RocksStore)
    {es : List PipelineEvent} {p p' : Pipeline} (hrun : Run (Guarded PipelineStep InTime) p es p') :
    Run (Guarded PodStep allowed) { pod with phase := .up s p } (es.map (fun e => .work e 0))
      { pod with phase := .up (es.foldl (storeCall (fun _ => 0)) s) p' } := by
  induction hrun generalizing s with
  | nil => exact .nil _
  | cons hfirst _ ih =>
    refine .cons ⟨hallowed _ s _ _ rfl hfirst.1, .work 0 rfl hfirst.2 ?_⟩ (ih _)
    rintro rfl
    exact hfirst.1.1.elim

/-- One flush cycle of a column family, up to its commit. -/
def cycleEvents (cf : String) : List PipelineEvent :=
  [.drain, .rotate 5, .spawn, .iterate cf, .compiled cf, .sent cf, .recv, .collected]

lemma run_cycle (s : LogStore Record) (acked : List Record) (n : ℕ) (horphans : s.orphanedCfs = [])
    (hfresh : s.logs (rotatedCf 5) = none) {log : List Record} (hlog : s.logs s.activeCf = some log) :
    Run (Guarded PipelineStep InTime) ⟨s, 0, 0, 0, [], .idle, [], acked, n⟩ (cycleEvents s.activeCf)
      ⟨s.takeOrphans.rotate (rotatedCf 5), 0, 0, 0, [], .committing [⟨s.activeCf, log⟩], [], acked, n⟩ := by
  have hrotate : ∀ p, InTime p (.rotate 5) := fun _ => ⟨trivial, by norm_num [PipelineEvent.ClockInRange], trivial⟩
  have hsetup := run_setup (fun p => ⟨⟨trivial, trivial, trivial⟩, hrotate p, ⟨trivial, trivial, trivial⟩⟩) s 0 acked n
    hfresh
  rw [horphans] at hsetup
  have hrequest : (⟨s.takeOrphans.rotate (rotatedCf 5), 0, 0, .spawned s.activeCf ::ₘ 0, [], .idle, [], acked, n⟩ :
      Pipeline).log s.activeCf = log := by
    have hne : s.activeCf ≠ rotatedCf 5 := by
      intro heq
      rw [← heq, hlog] at hfresh
      cases hfresh
    simp [Pipeline.log, LogStore.rotate, LogStore.takeOrphans, Function.update_of_ne hne, hlog]
  have htask : ∀ p, InTime p (.iterate s.activeCf) ∧ InTime p (.compiled s.activeCf) ∧ InTime p (.sent s.activeCf) :=
    fun _ => ⟨⟨trivial, trivial, trivial⟩, ⟨trivial, trivial, trivial⟩, ⟨trivial, trivial, trivial⟩⟩
  have hsent : Run (Guarded PipelineStep InTime)
      ⟨s.takeOrphans.rotate (rotatedCf 5), 0, 0, .spawned s.activeCf ::ₘ 0, [], .idle, [], acked, n⟩ _ _ :=
    @run_task _ _ _ htask 0 rfl
  rw [hrequest] at hsent
  have hcollected : Run (Guarded PipelineStep InTime)
      ⟨s.takeOrphans.rotate (rotatedCf 5), 0, 0, 0, [⟨s.activeCf, log⟩], .idle, [], acked, n⟩ [.recv, .collected]
      ⟨s.takeOrphans.rotate (rotatedCf 5), 0, 0, 0, [], .committing [⟨s.activeCf, log⟩], [], acked, n⟩ := by
    refine .cons ⟨⟨trivial, trivial, trivial⟩, .recv rfl rfl⟩ ?_
    exact .cons ⟨⟨trivial, trivial, trivial⟩, .collected rfl rfl⟩ (.nil _)
  exact (hsetup.append hsent).append hcollected

def firstRecord : Record := ⟨.appended 0, [1]⟩

def firstAppend : List PipelineEvent := [.clone [[1]], .write "active" [[1]]]

/-- The column families after the first append of the first process. -/
def firstStore : LogStore Record := (Pod.empty.resume freshStore).store.append "active" [firstRecord]

def ackedPipeline : Pipeline := ⟨firstStore, 0, 0, 0, [], .idle, [], [firstRecord], 1⟩

lemma run_firstAppend :
    Run (Guarded PipelineStep InTime) (Pod.empty.resume freshStore) firstAppend ackedPipeline := by
  refine .cons ⟨⟨trivial, trivial, trivial⟩, .clone _ (by decide)⟩ ?_
  exact .cons ⟨⟨trivial, trivial, by decide, by decide⟩, .write rfl (by decide)⟩ (.nil _)

def firstOpen : OpenEnv := ⟨none, true, true, 0⟩

def ackedStore : RocksStore := firstAppend.foldl (storeCall (fun _ => 0)) freshStore

/-- The first process, in which every value decodes. -/
def openedPod : Pod :=
  { Pod.empty with phase := .up freshStore (Pod.empty.resume freshStore), decodes := fun _ => true }

/-- It acknowledges a record and ends. -/
def ackedPod : Pod := openedPod.ended ackedStore.db ackedPipeline [firstRecord]

lemma run_ackedPod : Run (Guarded PodStep Pod.Regular) Pod.empty
    (.openStore firstOpen 0 0 :: (firstAppend.map (fun e => .work e 0) ++ [.crash])) ackedPod := by
  refine .cons ⟨rfl, .opened (fun _ => true) rfl (listsCf_none none) new_freshStore⟩ ?_
  exact (run_work InTime.regular openedPod freshStore run_firstAppend).snoc ⟨trivial, .crash rfl⟩

lemma row_or_skipped (hr : r ∈ pod.committed) : r ∈ pod.table ∨ r ∈ pod.skipped := by
  unfold Pod.committed at hr
  unfold Pod.table Pod.skipped
  cases hphase : pod.phase with
  | down disk records =>
    rw [hphase] at hr
    exact (List.mem_append.mp hr).imp_left (List.mem_append_left _)
  | up s p =>
    rw [hphase] at hr
    rcases List.mem_append.mp hr with hearlier | hnow
    · refine (List.mem_append.mp hearlier).imp (fun hrow => ?_) (List.mem_append_left _)
      exact List.mem_append_left _ (List.mem_append_left _ hrow)
    · cases hdecodes : pod.decodes r.value with
      | true =>
        have hrow : r ∈ rowsOf pod.decodes p.table := List.mem_filter.mpr ⟨hnow, hdecodes⟩
        exact Or.inl (List.mem_append_left _ (List.mem_append_right _ hrow))
      | false =>
        have hskipped : r ∈ skippedOf pod.decodes p.table := by
          refine List.mem_filter.mpr ⟨hnow, ?_⟩
          rw [hdecodes, Bool.not_false]
        exact Or.inr (List.mem_append_right _ hskipped)

lemma count_table_le (pod : Pod) (r : Record) :
    pod.table.count r ≤ pod.committed.count r + pod.unanswered.count r := by
  unfold Pod.table Pod.committed Pod.earlierCommitted
  cases pod.phase with
  | down disk records =>
    simp only [List.count_append]
    omega
  | up s p =>
    have hrows : (rowsOf pod.decodes p.table).count r ≤ p.table.count r := List.filter_sublist.count_le r
    simp only [List.count_append]
    omega

/-- A row is in the table at most once more than the number of times that a process found its record
in the directory after it had been committed, and that the reply to a commit of it was lost. -/
theorem table_copies_le {es : List PodEvent} (hrun : Run (Guarded PodStep Pod.Regular) Pod.empty es pod)
    (hroom : pod.ids < 2 ^ 64 - 1) (r : Record) :
    pod.table.count r ≤ pod.refound.count r + pod.unanswered.count r + 1 := by
  have hinv := pod_invariant hrun hroom
  have hcommitted : pod.committed.count r ≤ pod.refound.count r + 1 := by
    cases hphase : pod.phase with
    | down disk records =>
      rw [Pod.committed, hphase]
      exact (hinv.down hphase).copies r
    | up s p =>
      rw [Pod.committed, hphase]
      exact count_committed_le (hinv.up hphase) r
  calc pod.table.count r
      ≤ pod.committed.count r + pod.unanswered.count r := count_table_le pod r
    _ ≤ pod.refound.count r + pod.unanswered.count r + 1 := by omega

def secondOpen : OpenEnv := ⟨some ["active_5", "active", "default"], true, true, 0⟩

def committingPipeline : Pipeline :=
  ⟨firstStore.takeOrphans.rotate (rotatedCf 5), 0, 0, 0, [], .committing [⟨"active", [firstRecord]⟩], [],
    [firstRecord], 1⟩

def committingStore : RocksStore := (cycleEvents "active").foldl (storeCall (fun _ => 0)) ackedStore

def committedPipeline : Pipeline :=
  { committingPipeline with table := [firstRecord], committer := .dropping ["active"] }

/-- The first commit takes effect twice, since the first reply is lost, and the process ends before
the drop. -/
def crashedPod : Pod := Pod.ended { openedPod with unanswered := [firstRecord] } committingStore.db committedPipeline
  [firstRecord]

lemma run_crashedPod : Run (Guarded PodStep Pod.Regular) Pod.empty
    (.openStore firstOpen 0 0 :: ((firstAppend ++ cycleEvents "active").map (fun e => .work e 0) ++
      [.replyLost, .crashIn .committed 0])) crashedPod := by
  have hcycle := @run_cycle firstStore [firstRecord] 1 rfl (by decide) [firstRecord] (by decide)
  have hworked := run_work InTime.regular openedPod freshStore (run_firstAppend.append hcycle)
  have hrows : committingPipeline.committer.HasRows openedPod.decodes :=
    ⟨⟨"active", [firstRecord]⟩, List.mem_singleton_self _, firstRecord, List.mem_singleton_self _, rfl⟩
  refine .cons ⟨rfl, .opened (fun _ => true) rfl (listsCf_none none) new_freshStore⟩ (hworked.append ?_)
  refine .cons ⟨trivial, .replyLost rfl rfl hrows⟩ (.cons ⟨⟨trivial, fun _ _ _ => trivial⟩, ?_⟩ (.nil _))
  have hcommit : PipelineStep committingPipeline .committed committedPipeline :=
    @PipelineStep.committed committingPipeline [⟨"active", [firstRecord]⟩] rfl
  exact @PodStep.crashIn _ committingStore _ _ _ 0 rfl hcommit

/-- The record of the crashed pod is found again and is in the table twice. -/
theorem table_copies_le_after_crash :
    ∃ pod : Pod, pod.table = [firstRecord, firstRecord] ∧ pod.refound = [firstRecord] ∧
      pod.table.count firstRecord ≤ pod.refound.count firstRecord + pod.unanswered.count firstRecord + 1 := by
  have hopen : PodStep crashedPod (.openStore secondOpen 0 0) _ := .opened (fun _ => true) rfl (listsCf_keys rfl) rfl
  have hregular : crashedPod.Regular (.openStore secondOpen 0 0) := rfl
  refine ⟨_, ?_, ?_, table_copies_le (run_crashedPod.snoc ⟨hregular, hopen⟩) ?_ firstRecord⟩
  · rfl
  · decide
  · decide

end MicewriterEngine.Proofs
