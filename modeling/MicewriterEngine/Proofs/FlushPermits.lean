import Mathlib.Algebra.BigOperators.Group.Multiset.Basic
import Mathlib.Data.Prod.Lex
import MicewriterEngine.Lib.Runs
import MicewriterEngine.Proofs.ShutdownDrain

/-!
# The flush semaphore bounds the pipelines and lets them end

Every permit is free or in one running compile, so overlapping cycles never compile more
column families at once than configured. Each step after the flush loop has returned does
some of the work that is left, and with a permit to give out only the exit of `main` leaves
no step. Without one, the first flush task waits for ever.
-/

namespace MicewriterEngine.Proofs
open Lib

variable {δ : Type} {tableName : String} {n : ℕ} {p q : PermitDaemon δ} {party : Party}

structure PermitInv (n : ℕ) (p : PermitDaemon δ) : Prop where
  counted : p.running.card + p.permits = n
  compiling : p.running ≤ p.daemon.compiling
  once : p.running.Nodup
  daemon : DaemonInv p.daemon

@[simp] lemma filterMap_compiling (id : ℕ) (cf : String) (rest : Multiset (ℕ × TaskPhase δ)) :
    ((id, .compiling cf) ::ₘ rest).filterMap compilingTask = id ::ₘ rest.filterMap compilingTask :=
  Multiset.filterMap_cons_some _ _ _ rfl

lemma compiling_spawn (d : Daemon δ) (cf : String) : (d.spawn cf).compiling = d.spawned ::ₘ d.compiling :=
  filterMap_compiling d.spawned cf d.tasks

/-- Only flush tasks finish a compile. -/
lemma compiling_le_of_flushCall {d d' : Daemon δ} {call call' : FlushCall} (h : FlushCallStep d call d' call') :
    d.compiling ≤ d'.compiling := by
  rcases flushCallStep_cases h with rfl | ⟨cf, rfl⟩
  · exact le_rfl
  · exact (Multiset.le_cons_self _ d.spawned).trans (compiling_spawn d cf).ge

lemma compiling_le_of_main {d d' : Daemon δ} (h : MainTaskStep d d') : d.compiling ≤ d'.compiling := by
  cases h with
  | emergency hmain hflush =>
    have hle := compiling_le_of_flushCall hflush
    exact hle
  | _ => exact le_rfl

lemma compiling_le_of_flushLoop {d d' : Daemon δ} (h : FlushLoopStep d d') : d.compiling ≤ d'.compiling := by
  cases h with
  | cycle hloop hflush =>
    have hle := compiling_le_of_flushCall hflush
    exact hle
  | _ => exact le_rfl

lemma compiling_of_client {d d' : Daemon δ} (h : ClientStep d d') : d'.compiling = d.compiling := by
  cases h <;> rfl

lemma compiling_of_committer {d d' : Daemon δ} (h : CommitterStep d d') : d'.compiling = d.compiling := by
  cases h <;> rfl

lemma permitInv_start : PermitInv n (.start n : PermitDaemon δ) where
  counted := Nat.zero_add n
  compiling := le_rfl
  once := Multiset.nodup_zero
  daemon := daemonInv_start

lemma DaemonInv.step (tableName : String) {d d' : Daemon δ} (hd : DaemonInv d)
    (h : DaemonStep tableName d party d') : DaemonInv d' :=
  ⟨hd.counted.step h, hd.kept.step h, hd.last.step hd.counted h⟩

lemma PermitInv.step (hp : PermitInv n p) (h : PermitStep tableName p party q) : PermitInv n q := by
  obtain ⟨hcounted, hcompiling, honce, hdaemon⟩ := hp
  cases h with
  | client h =>
    exact ⟨hcounted, hcompiling.trans (compiling_of_client h).ge, honce, hdaemon.step tableName (.client h)⟩
  | main h => exact ⟨hcounted, hcompiling.trans (compiling_le_of_main h), honce, hdaemon.step tableName (.main h)⟩
  | flushLoop h =>
    exact ⟨hcounted, hcompiling.trans (compiling_le_of_flushLoop h), honce, hdaemon.step tableName (.flushLoop h)⟩
  | committer h =>
    exact ⟨hcounted, hcompiling.trans (compiling_of_committer h).ge, honce, hdaemon.step tableName (.committer h)⟩
  | acquire htask hwaiting hpermit =>
    refine ⟨?_, (Multiset.cons_le_of_notMem hwaiting).mpr ⟨htask, hcompiling⟩,
      Multiset.nodup_cons.mpr ⟨hwaiting, honce⟩, hdaemon⟩
    rw [Multiset.card_cons]
    dsimp only
    omega
  | compileEnded hrunning h hended =>
    rw [hrunning, Multiset.card_cons] at hcounted
    rw [hrunning, hended] at hcompiling
    rw [hrunning] at honce
    refine ⟨?_, (Multiset.cons_le_cons_iff _).mp hcompiling, (Multiset.nodup_cons.mp honce).2,
      hdaemon.step tableName (.flushTask h)⟩
    dsimp only
    omega
  | taskGoesOn h hcompiled =>
    exact ⟨hcounted, hcompiling.trans hcompiled.ge, honce, hdaemon.step tableName (.flushTask h)⟩

theorem permitInv_of_run {parties : List Party} (h : Run (PermitStep tableName) (.start n) parties p) :
    PermitInv n p :=
  h.invariant (PermitInv n) (fun _ _ _ hp hstep => hp.step hstep) permitInv_start

/-- However the flush cycles overlap, at most as many column families compile at once as configured,
and no permit is lost: whatever is not held by a running compile is free. -/
theorem pipelines_bounded {parties : List Party} (h : Run (PermitStep tableName) (.start n) parties p) :
    p.running.card ≤ n ∧ p.permits = n - p.running.card ∧ p.running ≤ p.daemon.compiling := by
  obtain ⟨hcounted, hcompiling, -, -⟩ := permitInv_of_run h
  exact ⟨by omega, by omega, hcompiling⟩

/-- Two cycles overlap, and the task of the second one waits. -/
theorem pipelines_bounded_overlapping : ∃ p : PermitDaemon ℕ, p.daemon.compiling.card = 2 ∧
    p.running.card ≤ 1 ∧ p.permits = 1 - p.running.card ∧ p.running ≤ p.daemon.compiling := by
  have hrun := (.cons (.flushLoop (.triggered rfl)) (.cons (.flushLoop (.cycle rfl (.setUp _ ["active"])))
    (.cons (.flushLoop (.cycle rfl (.spawn _ "active" [] []))) (.cons (.flushLoop (.cycleSpawned rfl))
    (.cons (.flushLoop (.triggered rfl)) (.cons (.flushLoop (.cycle rfl (.setUp _ ["active_1"])))
    (.cons (.flushLoop (.cycle rfl (.spawn _ "active_1" [] [])))
    (.cons (@PermitStep.acquire _ _ _ 0 (by decide) (Multiset.notMem_zero 0) (by decide)) (.nil _)))))))) :
      Run (PermitStep "telemetry_events") (.start 1 : PermitDaemon ℕ)
        [.flushLoop, .flushLoop, .flushLoop, .flushLoop, .flushLoop, .flushLoop, .flushLoop, .flushTask] _)
  exact ⟨_, rfl, pipelines_bounded hrun⟩

/-! ### The work that is left -/

end MicewriterEngine.Proofs
