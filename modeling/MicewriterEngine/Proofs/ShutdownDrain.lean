import Mathlib.Data.List.Induction
import MicewriterEngine.Model.Shutdown

/-!
# Shutdown drains the pipeline

The channel ends for the committer only when `main`, the flush loop and all flush tasks
have dropped their senders. So it exits after it has taken and settled every request.
-/

namespace MicewriterEngine.Proofs
open Lib

variable {δ : Type} {tableName : String} {p q : Daemon δ}

/-- The calls of the loop over the tables, and whether none of them failed. -/
inductive CommitTrace : List (Σ _ : String, List δ) → Bool → List (CommitterAction δ) → Prop
  | nil : CommitTrace [] true []
  | noDataFiles {tables : List (Σ _ : String, List δ)} {fullyCommitted : Bool} {actions : List (CommitterAction δ)}
      {tableName : String} (h : CommitTrace tables fullyCommitted actions) :
      CommitTrace (tables ++ [⟨tableName, []⟩]) fullyCommitted actions
  | commit {tables : List (Σ _ : String, List δ)} {fullyCommitted : Bool} {actions : List (CommitterAction δ)}
      {tableName : String} {dataFiles : List δ} (ok : Bool) (hfiles : dataFiles ≠ [])
      (h : CommitTrace tables fullyCommitted actions) :
      CommitTrace (tables ++ [⟨tableName, dataFiles⟩]) (fullyCommitted && ok)
        (actions ++ [.commitDataFiles tableName dataFiles ok])

/-- All column families are dropped, or all are retained. -/
def settleActions (fullyCommitted : Bool) (cfs : List String) : List (CommitterAction δ) :=
  cfs.map (if fullyCommitted then .dropFrozenCf else .retainFrozenCf)

/-- The commits of all tables of the batch, and then the drops or the retains of its column families. -/
def BatchDone (batch : List (CommitRequest δ)) (actions : List (CommitterAction δ)) : Prop :=
  ∃ fullyCommitted commits, CommitTrace (mergeDataFiles batch).entries fullyCommitted commits ∧
    actions = commits ++ settleActions fullyCommitted (batch.map CommitRequest.cfName)

structure Drained (p : Daemon δ) : Prop where
  tasks : p.tasks = 0 ∧ p.released = p.spawned
  senders : p.senders = 0
  /-- Every request was taken into one batch, in the order of the sends. -/
  taken : p.batches.flatten = p.sent
  /-- For every batch the committer did all it has to do. -/
  settled : ∃ traces, List.Forall₂ BatchDone p.batches traces ∧ p.actions = traces.flatten

/-- The commits that took effect. -/
def effective : CommitterAction δ → Option (String × List δ)
  | .commitDataFiles tableName dataFiles true => some (tableName, dataFiles)
  | _ => none

lemma commitTables_snoc (commitOk : String → Bool) (tables : List (Σ _ : String, List δ)) (tableName : String)
    (dataFiles : List δ) :
    commitTables commitOk (tables ++ [⟨tableName, dataFiles⟩]) =
      if dataFiles.isEmpty then commitTables commitOk tables
      else if commitOk tableName then
        ((commitTables commitOk tables).1 ++ [(tableName, dataFiles)], (commitTables commitOk tables).2)
      else ((commitTables commitOk tables).1, false) := by
  induction tables with
  | nil => rfl
  | cons table tables ih =>
    simp only [List.cons_append, commitTables, ih]
    cases dataFiles.isEmpty <;> cases commitOk tableName <;> grind

/-- `commitTables` is one of the traces of the loop. -/
lemma commitTables_trace (commitOk : String → Bool) (tables : List (Σ _ : String, List δ)) :
    ∃ actions, CommitTrace tables (commitTables commitOk tables).2 actions ∧
      actions.filterMap effective = (commitTables commitOk tables).1 := by
  induction tables using List.reverseRecOn with
  | nil => exact ⟨[], .nil, rfl⟩
  | append_singleton tables table ih =>
    obtain ⟨tableName, dataFiles⟩ := table
    obtain ⟨actions, htrace, heffective⟩ := ih
    rw [commitTables_snoc]
    split
    · rename_i hempty
      rw [List.isEmpty_iff.mp hempty]
      exact ⟨actions, htrace.noDataFiles, heffective⟩
    · rename_i hfiles
      have hne : dataFiles ≠ [] := fun hnil => hfiles (List.isEmpty_iff.mpr hnil)
      split
      · have hcommit : CommitTrace (tables ++ [⟨tableName, dataFiles⟩]) _ _ := htrace.commit true hne
        rw [Bool.and_true] at hcommit
        exact ⟨_, hcommit, by simp [heffective, effective]⟩
      · have hcommit : CommitTrace (tables ++ [⟨tableName, dataFiles⟩]) _ _ := htrace.commit false hne
        rw [Bool.and_false] at hcommit
        exact ⟨_, hcommit, by simp [heffective, effective]⟩

/-- What `settleBatch` commits is what the loop commits in some run. -/
theorem settleBatch_done (commitOk : String → Bool) (s : RocksStore)
    (batch : List (CommitRequest δ × DropOutcome)) :
    ∃ actions, BatchDone (batch.map Prod.fst) actions ∧
      actions.filterMap effective = (settleBatch commitOk s batch).commits := by
  obtain ⟨commits, htrace, heffective⟩ := commitTables_trace commitOk (mergeDataFiles (batch.map Prod.fst)).entries
  refine ⟨_, ⟨_, commits, htrace, rfl⟩, ?_⟩
  have hsettled : ∀ (fullyCommitted : Bool) (cfs : List String),
      (settleActions fullyCommitted cfs : List (CommitterAction δ)).filterMap effective = [] := by
    intro fullyCommitted cfs
    cases fullyCommitted <;> simp [settleActions, effective]
  rw [List.filterMap_append, hsettled, List.append_nil, heffective]
  rcases hcommits : commitTables commitOk (mergeDataFiles (batch.map Prod.fst)).entries with ⟨done, fullyCommitted⟩
  simp only [settleBatch, hcommits]
  split <;> rfl

/-- Whether `main` holds its sender. -/
def mainSenders : MainPhase → ℕ
  | .awaitingCommitter | .exited => 0
  | _ => 1

def loopSenders : FlushLoopPhase → ℕ
  | .returned => 0
  | _ => 1

structure SendersCounted (p : Daemon δ) : Prop where
  senders : p.senders = mainSenders p.main + loopSenders p.flushLoop + p.tasks.card
  spawned : p.spawned = p.released + p.tasks.card

lemma flushCallStep_cases {p p' : Daemon δ} {call call' : FlushCall} (h : FlushCallStep p call p' call') :
    p' = p ∨ ∃ cf, p' = p.spawn cf := by
  cases h with
  | setUp => exact Or.inl rfl
  | spawn => exact Or.inr ⟨_, rfl⟩

lemma SendersCounted.flushCall {p' : Daemon δ} {call call' : FlushCall} (hp : SendersCounted p)
    (h : FlushCallStep p call p' call') : SendersCounted p' ∧ p'.main = p.main ∧ p'.flushLoop = p.flushLoop := by
  rcases flushCallStep_cases h with rfl | ⟨cf, rfl⟩
  · exact ⟨hp, rfl, rfl⟩
  · obtain ⟨hsenders, hspawned⟩ := hp
    refine ⟨⟨?_, ?_⟩, rfl, rfl⟩
    · simp only [Daemon.spawn, Multiset.card_cons]
      omega
    · simp only [Daemon.spawn, Multiset.card_cons]
      omega

lemma SendersCounted.mainTask (hp : SendersCounted p) (h : MainTaskStep p q) : SendersCounted q := by
  have hsenders := hp.senders
  cases h with
  | emergency hmain hflush =>
    obtain ⟨hp', hmain', -⟩ := hp.flushCall hflush
    have hsenders' := hp'.senders
    rw [hmain', hmain] at hsenders'
    exact ⟨hsenders', hp'.spawned⟩
  | senderDropped hmain =>
    rw [hmain] at hsenders
    refine ⟨?_, hp.spawned⟩
    simp only [mainSenders] at hsenders ⊢
    omega
  | signal hmain | grpcDrained hmain _ | loopJoined hmain _ | emergencyFailed hmain | emergencySpawned hmain
  | taskJoined hmain _ | allJoined hmain | committerJoined hmain _ =>
    rw [hmain] at hsenders
    exact ⟨hsenders, hp.spawned⟩

lemma SendersCounted.flushLoop (hp : SendersCounted p) (h : FlushLoopStep p q) : SendersCounted q := by
  have hsenders := hp.senders
  cases h with
  | cycle hloop hflush =>
    obtain ⟨hp', -, hloop'⟩ := hp.flushCall hflush
    have hsenders' := hp'.senders
    rw [hloop', hloop] at hsenders'
    exact ⟨hsenders', hp'.spawned⟩
  | returned hloop _ =>
    rw [hloop] at hsenders
    refine ⟨?_, hp.spawned⟩
    simp only [loopSenders] at hsenders ⊢
    omega
  | triggered hloop | cycleFailed hloop | cycleSpawned hloop =>
    rw [hloop] at hsenders
    exact ⟨hsenders, hp.spawned⟩

lemma SendersCounted.flushTask (hp : SendersCounted p) (h : FlushTaskStep tableName p q) : SendersCounted q := by
  obtain ⟨hsenders, hspawned⟩ := hp
  cases h with
  | ended htask =>
    rw [htask, Multiset.card_cons] at hsenders hspawned
    constructor <;> dsimp only <;> omega
  | compiled _ htask | compileFailed htask | sent htask _ | sendFailed htask _ =>
    rw [htask, Multiset.card_cons] at hsenders hspawned
    exact ⟨by rwa [Multiset.card_cons], by rwa [Multiset.card_cons]⟩

lemma SendersCounted.committer (hp : SendersCounted p) (h : CommitterStep p q) : SendersCounted q := by
  cases h <;> exact ⟨hp.senders, hp.spawned⟩

lemma SendersCounted.step {party : Party} (hp : SendersCounted p) (h : DaemonStep tableName p party q) :
    SendersCounted q := by
  cases h with
  | client h => cases h <;> exact ⟨hp.senders, hp.spawned⟩
  | main h => exact hp.mainTask h
  | flushLoop h => exact hp.flushLoop h
  | flushTask h => exact hp.flushTask h
  | committer h => exact hp.committer h

/-- What the committer has done for its current batch. -/
def PhaseTrace : CommitterPhase δ → List (CommitterAction δ) → Prop
  | .committing batch tables fullyCommitted, actions =>
    ∃ done, (mergeDataFiles batch).entries = done ++ tables ∧ CommitTrace done fullyCommitted actions
  | .settling batch cfs fullyCommitted, actions =>
    ∃ commits done, CommitTrace (mergeDataFiles batch).entries fullyCommitted commits ∧
      batch.map CommitRequest.cfName = done ++ cfs ∧ actions = commits ++ settleActions fullyCommitted done
  | _, actions => actions = []

structure RequestsKept (p : Daemon δ) : Prop where
  taken : p.sent = p.batches.flatten ++ p.committer.batch ++ p.queue
  trace : ∃ traces current, List.Forall₂ BatchDone p.batches traces ∧ p.actions = traces.flatten ++ current ∧
    PhaseTrace p.committer current

/-- Nothing follows after the committer has exited, and `main` exits later. -/
structure ExitsLast (p : Daemon δ) : Prop where
  exited : p.committer = .exited → p.queue = [] ∧ p.senders = 0
  joined : p.main = .exited → p.committer = .exited

lemma requestsKept_start : RequestsKept (.start : Daemon δ) where
  taken := rfl
  trace := ⟨[], [], .nil, rfl, rfl⟩

lemma RequestsKept.committer (hp : RequestsKept p) (h : CommitterStep p q) : RequestsKept q := by
  obtain ⟨htaken, traces, current, htraces, hactions, hcurrent⟩ := hp
  cases h with
  | recv hphase hqueue | tryRecv hphase hqueue =>
    rw [hphase, hqueue] at htaken
    rw [hphase] at hcurrent
    refine ⟨?_, traces, current, htraces, hactions, hcurrent⟩
    simpa [CommitterPhase.batch] using htaken
  | recvNone hphase =>
    rw [hphase] at htaken hcurrent
    exact ⟨htaken, traces, current, htraces, hactions, hcurrent⟩
  | tryRecvError hphase =>
    rw [hphase] at htaken hcurrent
    cases hcurrent
    exact ⟨htaken, traces, [], htraces, hactions, [], rfl, .nil⟩
  | noDataFiles hphase =>
    rw [hphase] at htaken hcurrent
    obtain ⟨done, hdone, hcommits⟩ := hcurrent
    exact ⟨htaken, traces, current, htraces, hactions, _, hdone.trans (List.append_cons ..), hcommits.noDataFiles⟩
  | commit ok hphase hfiles =>
    rw [hphase] at htaken hcurrent
    obtain ⟨done, hdone, hcommits⟩ := hcurrent
    refine ⟨htaken, traces, _, htraces, ?_, _, hdone.trans (List.append_cons ..), hcommits.commit ok hfiles⟩
    rw [hactions, List.append_assoc]
  | committed hphase =>
    rw [hphase] at htaken hcurrent
    obtain ⟨done, hdone, hcommits⟩ := hcurrent
    rw [List.append_nil] at hdone
    exact ⟨htaken, traces, current, htraces, hactions, current, [], hdone ▸ hcommits, rfl, (List.append_nil _).symm⟩
  | drop hphase | retain hphase =>
    rw [hphase] at htaken hcurrent
    obtain ⟨commits, done, hcommits, hcfs, rfl⟩ := hcurrent
    refine ⟨htaken, traces, _, htraces, ?_, commits, _, hcommits, hcfs.trans (List.append_cons ..), rfl⟩
    rw [hactions]
    simp [settleActions]
  | settled hphase =>
    rename_i batch fullyCommitted
    rw [hphase] at htaken hcurrent
    obtain ⟨commits, done, hcommits, hcfs, rfl⟩ := hcurrent
    rw [List.append_nil] at hcfs
    refine ⟨?_, traces ++ [commits ++ settleActions fullyCommitted done], [], ?_, ?_, rfl⟩
    · simpa [CommitterPhase.batch] using htaken
    · exact List.rel_append htraces (.cons ⟨_, commits, hcommits, by rw [hcfs]⟩ .nil)
    · rw [hactions]
      simp

/-- The other parties only add requests to the channel. -/
lemma RequestsKept.send (hp : RequestsKept p) {reqs : List (CommitRequest δ)} (hqueue : q.queue = p.queue ++ reqs)
    (hsent : q.sent = p.sent ++ reqs) (hcommitter : q.committer = p.committer) (hbatches : q.batches = p.batches)
    (hactions : q.actions = p.actions) : RequestsKept q where
  taken := by rw [hsent, hp.taken, hqueue, hcommitter, hbatches, List.append_assoc _ p.queue]
  trace := by
    rw [hcommitter, hbatches, hactions]
    exact hp.trace

lemma RequestsKept.flushCall {p' : Daemon δ} {call call' : FlushCall} (hp : RequestsKept p)
    (h : FlushCallStep p call p' call') : RequestsKept p' := by
  rcases flushCallStep_cases h with rfl | ⟨cf, rfl⟩
  · exact hp
  · exact ⟨hp.taken, hp.trace⟩

lemma RequestsKept.step {party : Party} (hp : RequestsKept p) (h : DaemonStep tableName p party q) :
    RequestsKept q := by
  cases h with
  | client h => cases h <;> exact ⟨hp.taken, hp.trace⟩
  | main h =>
    cases h with
    | emergency _ hflush => exact ⟨(hp.flushCall hflush).taken, (hp.flushCall hflush).trace⟩
    | _ => exact ⟨hp.taken, hp.trace⟩
  | flushLoop h =>
    cases h with
    | cycle _ hflush => exact ⟨(hp.flushCall hflush).taken, (hp.flushCall hflush).trace⟩
    | _ => exact ⟨hp.taken, hp.trace⟩
  | flushTask h =>
    cases h with
    | sent => exact hp.send rfl rfl rfl rfl rfl
    | _ => exact ⟨hp.taken, hp.trace⟩
  | committer h => exact hp.committer h

lemma ExitsLast.flushCall {p' : Daemon δ} {call call' : FlushCall} (hp : ExitsLast p) (hcounted : SendersCounted p)
    (hholds : 0 < mainSenders p.main + loopSenders p.flushLoop) (h : FlushCallStep p call p' call') :
    p.committer ≠ .exited ∧ p'.committer = p.committer ∧ p'.main = p.main := by
  have hrunning : p.committer ≠ .exited := by
    intro hexited
    have hnone := (hp.exited hexited).2
    have hsenders := hcounted.senders
    omega
  rcases flushCallStep_cases h with rfl | ⟨cf, rfl⟩
  · exact ⟨hrunning, rfl, rfl⟩
  · exact ⟨hrunning, rfl, rfl⟩

lemma ExitsLast.step {party : Party} (hp : ExitsLast p) (hcounted : SendersCounted p)
    (h : DaemonStep tableName p party q) : ExitsLast q := by
  cases h with
  | client h => cases h <;> exact ⟨hp.exited, hp.joined⟩
  | main h =>
    cases h with
    | emergency hmain hflush =>
      have hholds : 0 < mainSenders p.main + loopSenders p.flushLoop := by
        rw [hmain]
        exact Nat.lt_of_lt_of_le Nat.one_pos (Nat.le_add_right 1 _)
      obtain ⟨hrunning, hcommitter, -⟩ := hp.flushCall hcounted hholds hflush
      exact ⟨fun hexited => absurd (hcommitter.symm.trans hexited) hrunning, fun hmain' => by cases hmain'⟩
    | senderDropped hmain =>
      refine ⟨fun hexited => ⟨(hp.exited hexited).1, ?_⟩, fun hmain' => by cases hmain'⟩
      simp only [(hp.exited hexited).2]
    | committerJoined hmain hcommitter => exact ⟨hp.exited, fun _ => hcommitter⟩
    | _ => exact ⟨hp.exited, fun hmain' => by cases hmain'⟩
  | flushLoop h =>
    cases h with
    | cycle hloop hflush =>
      have hholds : 0 < mainSenders p.main + loopSenders p.flushLoop := by
        rw [hloop]
        exact Nat.lt_of_lt_of_le Nat.one_pos (Nat.le_add_left 1 _)
      obtain ⟨hrunning, hcommitter, hmain⟩ := hp.flushCall hcounted hholds hflush
      refine ⟨fun hexited => absurd (hcommitter.symm.trans hexited) hrunning, fun hexited => ?_⟩
      exact absurd (hp.joined (hmain.symm.trans hexited)) hrunning
    | returned hloop hshutdown =>
      refine ⟨fun hexited => ⟨(hp.exited hexited).1, ?_⟩, hp.joined⟩
      simp only [(hp.exited hexited).2]
    | _ => exact ⟨hp.exited, hp.joined⟩
  | flushTask h =>
    cases h with
    | sent htask hopen => exact ⟨fun hexited => absurd hexited hopen, hp.joined⟩
    | ended htask =>
      refine ⟨fun hexited => ⟨(hp.exited hexited).1, ?_⟩, hp.joined⟩
      simp only [(hp.exited hexited).2]
    | _ => exact ⟨hp.exited, hp.joined⟩
  | committer h =>
    have hnot : ∀ {phase : CommitterPhase δ}, p.committer = phase → phase ≠ .exited → p.main ≠ .exited :=
      fun hphase hne hmain => hne (hphase.symm.trans (hp.joined hmain))
    cases h with
    | recvNone hphase hqueue hsenders => exact ⟨fun _ => ⟨hqueue, hsenders⟩, fun _ => rfl⟩
    | recv hphase _ | tryRecv hphase _ | tryRecvError hphase | noDataFiles hphase | commit _ hphase _
    | committed hphase | drop hphase | retain hphase | settled hphase =>
      exact ⟨fun hexited => (by cases hexited), fun hmain => absurd hmain (hnot hphase (by simp))⟩

/-! ### Runs -/

structure DaemonInv (p : Daemon δ) : Prop where
  counted : SendersCounted p
  kept : RequestsKept p
  last : ExitsLast p

lemma daemonInv_start : DaemonInv (.start : Daemon δ) where
  counted := ⟨rfl, rfl⟩
  kept := requestsKept_start
  last := ⟨fun h => (by cases h), fun h => (by cases h)⟩

/-- In every run the channel counts the senders of `main`, of the flush loop and of the flush tasks. -/
theorem daemonInv_of_run {parties : List Party} (h : Run (DaemonStep tableName) .start parties p) : DaemonInv p :=
  h.invariant DaemonInv
    (fun _ _ _ hp hstep => ⟨hp.counted.step hstep, hp.kept.step hstep, hp.last.step hp.counted hstep⟩)
    daemonInv_start

/-- When `main` has joined the committer, every flush task has released its sender, and every
request ever sent is in a batch that the committer has committed and then dropped or retained. -/
theorem shutdown_drains {parties : List Party} (h : Run (DaemonStep tableName) .start parties p)
    (hexit : p.main = .exited) : p.committer = .exited ∧ Drained p := by
  obtain ⟨⟨hsenders, hspawned⟩, ⟨htaken, traces, current, htraces, hactions, hcurrent⟩, hlast⟩ := daemonInv_of_run h
  have hcommitter := hlast.joined hexit
  obtain ⟨hqueue, hzero⟩ := hlast.exited hcommitter
  have htasks : p.tasks.card = 0 := by omega
  refine ⟨hcommitter, ⟨Multiset.card_eq_zero.mp htasks, by omega⟩, hzero, ?_, traces, htraces, ?_⟩
  · rw [hcommitter, hqueue, List.append_nil] at htaken
    exact (htaken.trans (List.append_nil _)).symm
  · rw [hcommitter] at hcurrent
    rw [hactions, show current = [] from hcurrent, List.append_nil]

def frozenRequest : CommitRequest ℕ := ⟨"active", [("telemetry_events", [3])]⟩

def emergencyRequest : CommitRequest ℕ := ⟨"active_5", [("telemetry_events", [7])]⟩

/-- The process after a flush cycle and the emergency flush, whose task ended first. -/
def drainedDaemon : Daemon ℕ where
  main := .exited
  flushLoop := .returned
  shutdown := true
  streams := 0
  tasks := 0
  spawned := 2
  released := 2
  senders := 0
  queue := []
  sent := [emergencyRequest, frozenRequest]
  committer := .exited
  batches := [[emergencyRequest], [frozenRequest]]
  actions := [.commitDataFiles "telemetry_events" [7] true, .dropFrozenCf "active_5",
    .commitDataFiles "telemetry_events" [3] true, .dropFrozenCf "active"]

/-- `main` waits for the committer while the task of the cycle still compiles. -/
def lingeringDaemon : Daemon ℕ :=
  { drainedDaemon with
    main := .awaitingCommitter
    tasks := {(0, .compiling "active")}
    released := 1
    senders := 1
    queue := [emergencyRequest]
    sent := [emergencyRequest]
    committer := .receiving
    batches := []
    actions := [] }

/-- A stream is open and the task of a flush cycle runs when the signal comes, and the task outlives the
emergency flush. -/
theorem shutdown_drains_emergency : drainedDaemon.committer = .exited ∧ Drained drainedDaemon := by
  have hreceiving : (CommitterPhase.receiving : CommitterPhase ℕ) ≠ .exited := by simp
  have hsignalled : Run (DaemonStep "telemetry_events") (.start : Daemon ℕ)
      [.client, .flushLoop, .flushLoop, .flushLoop, .flushLoop, .main, .client, .main, .flushLoop, .main]
      { (.start : Daemon ℕ) with
        main := .flushing .settingUp
        flushLoop := .returned
        shutdown := true
        tasks := {(0, .compiling "active")}
        spawned := 1
        senders := 2 } :=
    .cons (.client (.opened rfl)) (.cons (.flushLoop (.triggered rfl))
      (.cons (.flushLoop (.cycle rfl (.setUp _ ["active"]))) (.cons (.flushLoop (.cycle rfl (.spawn _ "active" [] [])))
      (.cons (.flushLoop (.cycleSpawned rfl)) (.cons (.main (.signal rfl)) (.cons (.client (.closed rfl))
      (.cons (.main (.grpcDrained rfl rfl)) (.cons (.flushLoop (.returned rfl rfl))
      (.cons (.main (.loopJoined rfl rfl)) (.nil _))))))))))
  have hflushed : Run (DaemonStep "telemetry_events")
      { (.start : Daemon ℕ) with
        main := .flushing .settingUp
        flushLoop := .returned
        shutdown := true
        tasks := {(0, .compiling "active")}
        spawned := 1
        senders := 2 }
      [.main, .main, .main, .flushTask, .flushTask, .flushTask, .main, .main, .main] lingeringDaemon :=
    .cons (.main (.emergency rfl (.setUp _ ["active_5"]))) (.cons (.main (.emergency rfl (.spawn _ "active_5" [] [])))
      (.cons (.main (.emergencySpawned rfl)) (.cons (.flushTask (.compiled [7] rfl))
      (.cons (.flushTask (.sent rfl hreceiving)) (.cons (.flushTask (.ended rfl))
      (.cons (.main (.taskJoined rfl (by simp))) (.cons (.main (.allJoined rfl))
      (.cons (.main (.senderDropped rfl)) (.nil _)))))))))
  have hfirst : Run (DaemonStep "telemetry_events") lingeringDaemon
      [.committer, .committer, .committer, .committer, .committer, .committer, .flushTask, .flushTask, .flushTask]
      { drainedDaemon with
        main := .awaitingCommitter
        queue := [frozenRequest]
        committer := .receiving
        batches := [[emergencyRequest]]
        actions := drainedDaemon.actions.take 2 } :=
    .cons (.committer (.recv rfl rfl)) (.cons (.committer (.tryRecvError rfl))
      (.cons (.committer (.commit true rfl (by simp))) (.cons (.committer (.committed rfl))
      (.cons (.committer (.drop rfl)) (.cons (.committer (.settled rfl)) (.cons (.flushTask (.compiled [3] rfl))
      (.cons (.flushTask (.sent rfl hreceiving)) (.cons (.flushTask (.ended rfl)) (.nil _)))))))))
  have hdrained : Run (DaemonStep "telemetry_events")
      { drainedDaemon with
        main := .awaitingCommitter
        queue := [frozenRequest]
        committer := .receiving
        batches := [[emergencyRequest]]
        actions := drainedDaemon.actions.take 2 }
      [.committer, .committer, .committer, .committer, .committer, .committer, .committer, .main] drainedDaemon :=
    .cons (.committer (.recv rfl rfl)) (.cons (.committer (.tryRecvError rfl))
      (.cons (.committer (.commit true rfl (by simp))) (.cons (.committer (.committed rfl))
      (.cons (.committer (.drop rfl)) (.cons (.committer (.settled rfl))
      (.cons (.committer (.recvNone rfl rfl rfl)) (.cons (.main (.committerJoined rfl rfl)) (.nil _))))))))
  exact shutdown_drains (hsignalled.append (hflushed.append (hfirst.append hdrained))) rfl

end MicewriterEngine.Proofs
