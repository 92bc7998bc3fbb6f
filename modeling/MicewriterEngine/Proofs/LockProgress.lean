import Mathlib.Algebra.Order.BigOperators.Group.Finset
import MicewriterEngine.Proofs.LockWaits

/-!
# Progress of the threads

While the chain of waits is open some thread gets closer to the end of its call, and the
chain stays open. So all calls can end, and no thread waits in vain.
-/

namespace MicewriterEngine.Proofs
open Lib Threads
open scoped BigOperators

def workerRank : Worker → ℕ
  | .idle => 0
  | .wantActive => 4
  | .inActive => 3
  | .wantDb => 2
  | .inDb => 1
  | .wantOrphans _ => 2
  | .inOrphans _ => 1

def rotateRank : Rotate → ℕ
  | .idle => 0
  | .wantActive => 6
  | .wantDb => 5
  | .inDb => 4
  | .wantSizes => 3
  | .inSizes => 2
  | .resetting => 1

def dropRank : Drop → ℕ
  | .idle => 0
  | .wantDb => 4
  | .inDb => 3
  | .wantSizes => 2
  | .inSizes => 1

def compileRank : Compile → ℕ
  | .idle => 0
  | .building => 5
  | .wantDb => 4
  | .writing => 3
  | .inDb => 2
  | .closing => 1

variable {ω ρ δ κ : Type} {x y : Threads ω ρ δ κ} {writersFirst : Prop}

lemma worker_rank_lt {pc pc' : Worker} (h : x.WorkerStep writersFirst pc pc') (hpc : pc ≠ .idle) :
    workerRank pc' < workerRank pc := by
  cases h <;> first | exact absurd rfl hpc | simp [workerRank]

lemma rotate_rank_lt {pc pc' : Rotate} (h : x.RotateStep pc pc') (hpc : pc ≠ .idle) :
    rotateRank pc' < rotateRank pc := by
  cases h <;> first | exact absurd rfl hpc | simp [rotateRank]

lemma drop_rank_lt {pc pc' : Drop} (h : x.DropStep pc pc') (hpc : pc ≠ .idle) :
    dropRank pc' < dropRank pc := by
  cases h <;> first | exact absurd rfl hpc | simp [dropRank]

lemma compile_rank_lt {pc pc' : Compile} (h : x.CompileStep writersFirst pc pc') (hpc : pc ≠ .idle)
    (hpc' : pc' ≠ .writing) : compileRank pc' < compileRank pc := by
  cases h <;> first | exact absurd rfl hpc | exact absurd rfl hpc' | simp [compileRank]

lemma sum_update_lt {ι α : Type} [Fintype ι] [DecidableEq ι] (rank : α → ℕ) (f : ι → α) (i : ι) (a : α)
    (h : rank a < rank (f i)) : ∑ j, rank (Function.update f i a j) < ∑ j, rank (f j) := by
  apply Finset.sum_lt_sum
  · intro j _
    by_cases hji : j = i
    · subst hji
      rw [Function.update_self]
      exact h.le
    · rw [Function.update_of_ne hji]
  · exact ⟨i, Finset.mem_univ i, by rwa [Function.update_self]⟩

variable [Fintype ω] [Fintype ρ] [Fintype δ] [Fintype κ]

def remaining (x : Threads ω ρ δ κ) : ℕ :=
  ∑ w, workerRank (x.workers w) + ∑ r, rotateRank (x.rotates r) + ∑ d, dropRank (x.drops d) +
    ∑ k, compileRank (x.compiles k)

variable [DecidableEq ω] [DecidableEq ρ] [DecidableEq δ] [DecidableEq κ]

/-- Some thread gets closer to the end of its call, and no compile begins to wait inside `iterate_cf`. -/
def Advances (writersFirst : Prop) (x : Threads ω ρ δ κ) : Prop :=
  ∃ t y, Step writersFirst x t y ∧ remaining y < remaining x ∧
    ∀ k, y.compiles k = .writing → x.compiles k = .writing

lemma advances_worker {w : ω} {pc : Worker} (h : x.WorkerStep writersFirst (x.workers w) pc)
    (hpc : x.workers w ≠ .idle) : Advances writersFirst x := by
  refine ⟨_, _, .worker w h, ?_, fun _ hk => hk⟩
  have hlt := sum_update_lt workerRank x.workers w pc (worker_rank_lt h hpc)
  dsimp only [remaining]
  omega

lemma advances_rotate {r : ρ} {pc : Rotate} (h : x.RotateStep (x.rotates r) pc) (hpc : x.rotates r ≠ .idle) :
    Advances writersFirst x := by
  refine ⟨_, _, .rotate r h, ?_, fun _ hk => hk⟩
  have hlt := sum_update_lt rotateRank x.rotates r pc (rotate_rank_lt h hpc)
  dsimp only [remaining]
  omega

lemma advances_drop {d : δ} {pc : Drop} (h : x.DropStep (x.drops d) pc) (hpc : x.drops d ≠ .idle) :
    Advances writersFirst x := by
  refine ⟨_, _, .drop d h, ?_, fun _ hk => hk⟩
  have hlt := sum_update_lt dropRank x.drops d pc (drop_rank_lt h hpc)
  dsimp only [remaining]
  omega

lemma advances_compile {k : κ} {pc : Compile} (h : x.CompileStep writersFirst (x.compiles k) pc)
    (hpc : x.compiles k ≠ .idle) (hpc' : pc ≠ .writing) : Advances writersFirst x := by
  refine ⟨_, _, .compile k h, ?_, fun k' hk' => ?_⟩
  · have hlt := sum_update_lt compileRank x.compiles k pc (compile_rank_lt h hpc hpc')
    dsimp only [remaining]
    omega
  · by_cases hkk : k' = k
    · subst hkk
      exact absurd ((Function.update_self _ _ _).symm.trans hk') hpc'
    · exact (Function.update_of_ne hkk _ _).symm.trans hk'

omit [Fintype ω] [Fintype ρ] [Fintype δ] [Fintype κ] in
lemma atRest_of_idle (hworkers : ∀ w, x.workers w = .idle) (hrotates : ∀ r, x.rotates r = .idle)
    (hdrops : ∀ d, x.drops d = .idle) (hcompiles : ∀ k, x.compiles k = .idle) : AtRest (Step writersFirst) x := by
  intro t
  cases t with
  | worker w =>
    have h : x.WorkerStep writersFirst (x.workers w) .wantActive := hworkers w ▸ .append
    exact ⟨_, .worker w h⟩
  | rotate r =>
    have h : x.RotateStep (x.rotates r) .wantActive := hrotates r ▸ .call
    exact ⟨_, .rotate r h⟩
  | drop d =>
    have h : x.DropStep (x.drops d) .wantDb := hdrops d ▸ .call
    exact ⟨_, .drop d h⟩
  | compile k =>
    have h : x.CompileStep writersFirst (x.compiles k) .building := hcompiles k ▸ .call
    exact ⟨_, .compile k h⟩

/-- Without I/O under `db` the locks are taken in order, and the last one in that order gets free. -/
theorem rest_or_advances [Nonempty ω] (hwriting : ∀ k, x.compiles k ≠ .writing) :
    AtRest (Step writersFirst) x ∨ Advances writersFirst x := by
  by_contra hnot
  obtain ⟨hrest, hstop⟩ := not_or.mp hnot
  have hworker : ∀ w {a pc}, x.workers w = a → x.WorkerStep writersFirst a pc → a = .idle := by
    rintro w _ pc rfl h
    exact by_contra (fun hpc => hstop (advances_worker h hpc))
  have hrotate : ∀ r {a pc}, x.rotates r = a → x.RotateStep a pc → a = .idle := by
    rintro r _ pc rfl h
    exact by_contra (fun hpc => hstop (advances_rotate h hpc))
  have hdrop : ∀ d {a pc}, x.drops d = a → x.DropStep a pc → a = .idle := by
    rintro d _ pc rfl h
    exact by_contra (fun hpc => hstop (advances_drop h hpc))
  have hcompile : ∀ k {a pc}, x.compiles k = a → pc ≠ .writing → x.CompileStep writersFirst a pc → a = .idle := by
    rintro k _ pc rfl hpc' h
    exact by_contra (fun hpc => hstop (advances_compile h hpc hpc'))
  -- Nobody holds a lock without waiting for another, so these locks are free from the innermost on.
  have hsizes : x.frozenCfSizes.CanWrite := by
    refine ⟨?_, id⟩
    rintro (⟨r, hr⟩ | ⟨d, hd⟩)
    · cases hrotate r hr .inserted
    · cases hdrop d hd .removed
  have hdb : x.db.CanWrite := by
    constructor
    · rintro (⟨r, hr⟩ | ⟨d, hd⟩)
      · cases hrotate r hr .created
      · cases hdrop d hd .dropped
    · rintro (⟨w, hw⟩ | ⟨k, hk | hk⟩)
      · cases hworker w hw .appended
      · cases hcompile k hk (by decide) .iterated
      · exact hwriting k hk
  have hdrops : ∀ d, x.drops d = .idle := by
    intro d
    cases hd : x.drops d with
    | idle => rfl
    | wantDb => exact hdrop d hd (.writeDb hdb)
    | inDb => exact hdrop d hd .dropped
    | wantSizes => exact hdrop d hd (.writeSizes hsizes)
    | inSizes => exact hdrop d hd .removed
  have hholder : ∀ r, x.rotates r = .idle ∨ x.rotates r = .wantActive := by
    intro r
    cases hr : x.rotates r with
    | idle => exact Or.inl rfl
    | wantActive => exact Or.inr rfl
    | wantDb => cases hrotate r hr (.writeDb hdb)
    | inDb => cases hrotate r hr .created
    | wantSizes => cases hrotate r hr (.writeSizes hsizes)
    | inSizes => cases hrotate r hr .inserted
    | resetting => cases hrotate r hr .rotated
  have hactive : x.activeCf.CanWrite := by
    constructor
    · rintro ⟨r, hne, hne'⟩
      exact (hholder r).elim hne hne'
    · rintro ⟨w, hw⟩
      cases hworker w hw .cloned
  have hrotates : ∀ r, x.rotates r = .idle := by
    intro r
    refine (hholder r).resolve_right (fun hr => ?_)
    cases hrotate r hr (.writeActive hactive)
  -- No writer waits any more, and the readers get in.
  have hreadActive : x.activeCf.CanRead writersFirst := by
    refine ⟨hactive.1, fun _ => ?_⟩
    rintro ⟨r, hr⟩
    exact absurd ((hrotates r).symm.trans hr) (by decide)
  have hreadDb : x.db.CanRead writersFirst := by
    refine ⟨hdb.1, fun _ => ?_⟩
    rintro (⟨r, hr⟩ | ⟨d, hd⟩)
    · exact absurd ((hrotates r).symm.trans hr) (by decide)
    · exact absurd ((hdrops d).symm.trans hd) (by decide)
  have horphans : x.orphanedCfs.CanWrite := by
    constructor
    · rintro ⟨w, hw⟩
      cases hworker w hw (.usedOrphans true)
    · rintro ⟨w, hw⟩
      cases hworker w hw (.usedOrphans false)
  have hreadOrphans : x.orphanedCfs.CanRead writersFirst := by
    refine ⟨horphans.1, fun _ => ?_⟩
    rintro ⟨w, hw⟩
    cases hworker w hw (.writeOrphans horphans)
  have hworkers : ∀ w, x.workers w = .idle := by
    intro w
    cases hw : x.workers w with
    | idle => rfl
    | wantActive => exact hworker w hw (.readActive hreadActive)
    | inActive => exact hworker w hw .cloned
    | wantDb => exact hworker w hw (.readDb hreadDb)
    | inDb => exact hworker w hw .appended
    | wantOrphans write =>
      cases write with
      | false => exact hworker w hw (.readOrphans hreadOrphans)
      | true => exact hworker w hw (.writeOrphans horphans)
    | inOrphans write => exact hworker w hw (.usedOrphans write)
  have hfree : ∃ w, ¬x.Blocked writersFirst w := by
    obtain ⟨w⟩ := ‹Nonempty ω›
    have h : x.WorkerStep writersFirst (x.workers w) .wantActive := hworkers w ▸ .append
    exact ⟨w, fun hblocked => hblocked _ h⟩
  have hcompiles : ∀ k, x.compiles k = .idle := by
    intro k
    cases hk : x.compiles k with
    | idle => rfl
    | building => exact hcompile k hk (by decide) (.built hfree)
    | wantDb => exact hcompile k hk (by decide) (.readDb hreadDb)
    | inDb => exact hcompile k hk (by decide) .iterated
    | writing => exact absurd hk (hwriting k)
    | closing => exact hcompile k hk (by decide) (.closed hfree)
  exact hrest (atRest_of_idle hworkers hrotates hdrops hcompiles)

/-- Some thread gets closer to the end of its call and leaves the chain open. -/
def AdvancesOpen (writersFirst : Prop) (x : Threads ω ρ δ κ) : Prop :=
  ∃ t y, Step writersFirst x t y ∧ remaining y < remaining x ∧ ¬ChainClosed writersFirst y

lemma advances_written {k : κ} (hk : x.compiles k = .writing) (hfree : ∃ w, ¬x.Blocked writersFirst w) :
    AdvancesOpen writersFirst x := by
  have h : x.CompileStep writersFirst (x.compiles k) .inDb := hk ▸ .written hfree
  have hlt := sum_update_lt compileRank x.compiles k .inDb (by rw [hk]; decide)
  refine ⟨_, _, .compile k h, ?_, ?_⟩
  · dsimp only [remaining]
    omega
  · rintro ⟨-, hwaits⟩
    obtain ⟨w, hw⟩ := hfree
    exact hw (blocked_of_waits (hwaits w))

omit [Fintype ω] [Fintype ρ] [Fintype δ] [Fintype κ] [DecidableEq ω] [DecidableEq ρ] [DecidableEq δ] [DecidableEq κ] in
lemma holder_of_blocked {w : ω} (hx : DbExclusive x) (hread : x.db.readHeld)
    (hblocked : ∀ w, x.Blocked writersFirst w) (hw : ¬WaitsBehindWriter writersFirst x w) :
    x.workers w = .wantActive ∧
      ∃ r, x.rotates r = .wantSizes ∨ x.rotates r = .inSizes ∨ x.rotates r = .resetting := by
  have hstop : ∀ w {a pc}, x.workers w = a → ¬x.WorkerStep writersFirst a pc := by
    rintro w _ pc rfl
    exact hblocked w pc
  have horphans : x.orphanedCfs.CanWrite := by
    constructor
    · rintro ⟨w, hpc⟩
      exact hstop w hpc (.usedOrphans true)
    · rintro ⟨w, hpc⟩
      exact hstop w hpc (.usedOrphans false)
  cases hpc : x.workers w with
  | idle => exact (hstop w hpc .append).elim
  | inActive => exact (hstop w hpc .cloned).elim
  | inDb => exact (hstop w hpc .appended).elim
  | inOrphans write => exact (hstop w hpc (.usedOrphans write)).elim
  | wantOrphans write =>
    cases write with
    | true => exact (hstop w hpc (.writeOrphans horphans)).elim
    | false =>
      refine (hstop w hpc (.readOrphans ⟨horphans.1, fun _ => ?_⟩)).elim
      rintro ⟨w', hpc'⟩
      exact hstop w' hpc' (.writeOrphans horphans)
  | wantDb =>
    refine (hstop w hpc (.readDb ⟨hx hread, fun hfirst hwanted => ?_⟩)).elim
    exact hw (Or.inr ⟨hfirst, hpc, hwanted⟩)
  | wantActive =>
    refine ⟨rfl, by_contra (fun hnone => hstop w hpc (.readActive ⟨?_, fun hfirst hwanted => ?_⟩))⟩
    · rintro ⟨r, hidle, hactive⟩
      cases hr : x.rotates r with
      | idle => exact hidle hr
      | wantActive => exact hactive hr
      | wantDb => exact hw (Or.inl ⟨hpc, Or.inl ⟨r, hr⟩⟩)
      | inDb => exact hx hread (Or.inl ⟨r, hr⟩)
      | wantSizes => exact hnone ⟨r, Or.inl hr⟩
      | inSizes => exact hnone ⟨r, Or.inr (Or.inl hr)⟩
      | resetting => exact hnone ⟨r, Or.inr (Or.inr hr)⟩
    · exact hw (Or.inl ⟨hpc, Or.inr ⟨hfirst, hwanted⟩⟩)

lemma advances_open_rotate {w : ω} {r : ρ} {pc : Rotate} (hpc : x.workers w = .wantActive)
    (hw : ¬WaitsBehindWriter writersFirst x w) (h : x.RotateStep (x.rotates r) pc) (hr : x.rotates r ≠ .idle)
    (hdb : pc ≠ .wantDb) (hactive : pc ≠ .wantActive) : AdvancesOpen writersFirst x := by
  have hlt := sum_update_lt rotateRank x.rotates r pc (rotate_rank_lt h hr)
  refine ⟨_, _, .rotate r h, ?_, ?_⟩
  · dsimp only [remaining]
    omega
  · rintro ⟨-, hwaits⟩
    rcases hwaits w with ⟨-, hr' | ⟨hfirst, hr'⟩⟩ | ⟨-, hpc', -⟩
    · exact hw (Or.inl ⟨hpc, Or.inl ((of_exists_update hr').resolve_right hdb)⟩)
    · exact hw (Or.inl ⟨hpc, Or.inr ⟨hfirst, (of_exists_update hr').resolve_right hactive⟩⟩)
    · exact absurd (hpc.symm.trans hpc') (by decide)

lemma advances_open_drop {w : ω} {d : δ} {pc : Drop} (hpc : x.workers w = .wantActive)
    (hw : ¬WaitsBehindWriter writersFirst x w) (h : x.DropStep (x.drops d) pc) (hd : x.drops d ≠ .idle) :
    AdvancesOpen writersFirst x := by
  have hlt := sum_update_lt dropRank x.drops d pc (drop_rank_lt h hd)
  refine ⟨_, _, .drop d h, ?_, ?_⟩
  · dsimp only [remaining]
    omega
  · rintro ⟨-, hwaits⟩
    rcases hwaits w with ⟨-, hr⟩ | ⟨-, hpc', -⟩
    · exact hw (Or.inl ⟨hpc, hr⟩)
    · exact absurd (hpc.symm.trans hpc') (by decide)

/-- While a compile waits for I/O under `db`, the I/O comes or a `rotate` makes way for a worker. -/
theorem advances_of_open {k : κ} (hk : x.compiles k = .writing) (hx : DbExclusive x)
    (hopen : ¬ChainClosed writersFirst x) : AdvancesOpen writersFirst x := by
  by_cases hfree : ∃ w, ¬x.Blocked writersFirst w
  · exact advances_written hk hfree
  · have hblocked : ∀ w, x.Blocked writersFirst w := fun w => by_contra (fun hw => hfree ⟨w, hw⟩)
    obtain ⟨w, hw⟩ : ∃ w, ¬WaitsBehindWriter writersFirst x w := by
      by_contra hnone
      exact hopen ⟨⟨k, hk⟩, fun w => by_contra (fun hw => hnone ⟨w, hw⟩)⟩
    obtain ⟨hpc, r, hr | hr | hr⟩ := holder_of_blocked hx (db_readHeld hk) hblocked hw
    · by_cases hsizes : x.frozenCfSizes.writeHeld
      · rcases hsizes with ⟨r', hr'⟩ | ⟨d, hd⟩
        · have h : x.RotateStep (x.rotates r') .resetting := hr' ▸ .inserted
          exact advances_open_rotate hpc hw h (by simp [hr']) (by decide) (by decide)
        · have h : x.DropStep (x.drops d) .idle := hd ▸ .removed
          exact advances_open_drop hpc hw h (by simp [hd])
      · have h : x.RotateStep (x.rotates r) .inSizes := hr ▸ .writeSizes ⟨hsizes, id⟩
        exact advances_open_rotate hpc hw h (by simp [hr]) (by decide) (by decide)
    · have h : x.RotateStep (x.rotates r) .resetting := hr ▸ .inserted
      exact advances_open_rotate hpc hw h (by simp [hr]) (by decide) (by decide)
    · have h : x.RotateStep (x.rotates r) .idle := hr ▸ .rotated
      exact advances_open_rotate hpc hw h (by simp [hr]) (by decide) (by decide)

/-- While the chain is open all calls can end. -/
theorem comes_to_rest [Nonempty ω] (hx : DbExclusive x) (hopen : ¬ChainClosed writersFirst x) :
    ∃ ts y, Run (Step writersFirst) x ts y ∧ AtRest (Step writersFirst) y := by
  refine exists_rest (P := fun x => DbExclusive x ∧ ¬ChainClosed writersFirst x) remaining ?_ ⟨hx, hopen⟩
  rintro s ⟨hs, hsopen⟩
  by_cases hwriting : ∃ k, s.compiles k = .writing
  · obtain ⟨k, hk⟩ := hwriting
    obtain ⟨t, y, hstep, hlt, hy⟩ := advances_of_open hk hs hsopen
    exact Or.inr ⟨t, y, hstep, ⟨dbExclusive_step hs hstep, hy⟩, hlt⟩
  · have hnone : ∀ k, s.compiles k ≠ .writing := fun k hk => hwriting ⟨k, hk⟩
    refine (rest_or_advances hnone).imp_right ?_
    rintro ⟨t, y, hstep, hlt, hy⟩
    refine ⟨t, y, hstep, ⟨dbExclusive_step hs hstep, ?_⟩, hlt⟩
    rintro ⟨⟨k, hk⟩, -⟩
    exact hnone k (hy k hk)

/-! ### One cycle and any number of workers -/

omit [Fintype ω] [Fintype ρ] [Fintype δ] [Fintype κ] in
lemma run_appends {ws : List ω} (hws : ws.Nodup) (hidle : ∀ w ∈ ws, x.workers w = .idle) :
    Run (Step writersFirst) x (ws.map .worker)
      { x with workers := fun w => if w ∈ ws then .wantActive else x.workers w } := by
  induction ws generalizing x with
  | nil => simpa using Run.nil x
  | cons a ws ih =>
    obtain ⟨ha, hws⟩ := List.nodup_cons.mp hws
    have hstep : x.WorkerStep writersFirst (x.workers a) .wantActive := hidle a List.mem_cons_self ▸ .append
    have hrest := ih (x := { x with workers := Function.update x.workers a .wantActive }) hws ?_
    · have hend : (fun w => if w ∈ ws then .wantActive else Function.update x.workers a .wantActive w) =
          fun w => if w ∈ a :: ws then .wantActive else x.workers w := by
        funext w
        by_cases hwa : w = a
        · subst hwa
          simp
        · simp [hwa]
      rw [hend] at hrest
      exact .cons (.worker a hstep) hrest
    · intro w hw
      have hwa : w ≠ a := fun heq => ha (heq ▸ hw)
      exact (Function.update_of_ne hwa _ _).trans (hidle w (List.mem_cons_of_mem a hw))

/-- One `rotate` and one compile besides the workers. -/
def oneCycle {W : ℕ} (workers : Fin W → Worker) (r : Rotate) (c : Compile) : Threads (Fin W) (Fin 1) (Fin 0) (Fin 1) :=
  ⟨workers, fun _ => r, fun _ => .idle, fun _ => c⟩

lemma update_const {α : Type} (a b : α) : Function.update (fun _ : Fin 1 => a) 0 b = fun _ => b := by
  funext i
  rw [Subsingleton.elim i 0, Function.update_self]

lemma oneCycle_rotate {W : ℕ} {workers : Fin W → Worker} {r r' : Rotate} {c : Compile}
    (h : (oneCycle workers r c).RotateStep r r') :
    Step writersFirst (oneCycle workers r c) (.rotate 0) (oneCycle workers r' c) := by
  have hstep : Step writersFirst (oneCycle workers r c) (.rotate 0) _ := .rotate 0 h
  rwa [show (oneCycle workers r c).rotates = fun _ => r from rfl, update_const] at hstep

lemma oneCycle_compile {W : ℕ} {workers : Fin W → Worker} {r : Rotate} {c c' : Compile}
    (h : (oneCycle workers r c).CompileStep writersFirst c c') :
    Step writersFirst (oneCycle workers r c) (.compile 0) (oneCycle workers r c') := by
  have hstep : Step writersFirst (oneCycle workers r c) (.compile 0) _ := .compile 0 h
  rwa [show (oneCycle workers r c).compiles = fun _ => c from rfl, update_const] at hstep

lemma run_oneCycle {W : ℕ} (hW : 1 ≤ W) :
    Run (Step writersFirst) (start : Threads (Fin W) (Fin 1) (Fin 0) (Fin 1))
      ([.compile 0, .compile 0, .compile 0, .compile 0] ++ [.rotate 0, .rotate 0])
      (oneCycle (fun _ => .idle) .wantDb .writing) := by
  let idle : Fin W → Worker := fun _ => .idle
  have hfree : ∃ w, ¬(oneCycle idle .idle .building).Blocked writersFirst w :=
    ⟨⟨0, hW⟩, fun hblocked => hblocked .wantActive .append⟩
  have hcompile : Run (Step writersFirst) (oneCycle idle .idle .idle)
      [.compile 0, .compile 0, .compile 0, .compile 0] (oneCycle idle .idle .writing) := by
    refine .cons (oneCycle_compile .call) (.cons (oneCycle_compile (.built hfree)) ?_)
    refine .cons (oneCycle_compile (.readDb ⟨?_, fun _ => ?_⟩)) (.cons (oneCycle_compile .write) (.nil _))
    · simp [oneCycle, db]
    · simp [oneCycle, db]
  have hrotate : Run (Step writersFirst) (oneCycle idle .idle .writing) [.rotate 0, .rotate 0]
      (oneCycle idle .wantDb .writing) := by
    refine .cons (oneCycle_rotate .call) (.cons (oneCycle_rotate (.writeActive ⟨?_, ?_⟩)) (.nil _))
    · simp [oneCycle, activeCf]
    · simp [oneCycle, activeCf, idle]
  exact hcompile.append hrotate

/-- Whatever the number of workers, one `rotate` and one compile are enough to close the chain. -/
theorem chain_reachable {W : ℕ} (hW : 1 ≤ W) :
    ∃ ts x, Run (Step writersFirst) (start : Threads (Fin W) (Fin 1) (Fin 0) (Fin 1)) ts x ∧
      ChainClosed writersFirst x := by
  have happends : Run (Step writersFirst) (oneCycle (fun _ : Fin W => .idle) .wantDb .writing) _ _ :=
    run_appends (List.nodup_finRange W) (fun _ _ => rfl)
  refine ⟨_, _, (run_oneCycle hW).append happends, ⟨0, rfl⟩, fun w => Or.inl ⟨?_, Or.inl ⟨0, rfl⟩⟩⟩
  simp

/-- In every reachable state the threads deadlock exactly when the chain of waits is closed. -/
theorem no_deadlock_iff [Nonempty ω] {ts : List (ThreadId ω ρ δ κ)} (hrun : Run (Step writersFirst) start ts x) :
    ¬Deadlock (Step writersFirst) x ↔ ¬ChainClosed writersFirst x := by
  constructor
  · exact mt deadlock_of_chainClosed
  · intro hopen
    have hx := hrun.invariant DbExclusive (fun s t y hs hstep => dbExclusive_step hs hstep) dbExclusive_start
    obtain ⟨us, y, hrest, hy⟩ := comes_to_rest hx hopen
    exact not_deadlock_of_rest hrest hy

/-- The only worker is idle while a compile waits for I/O and a `rotate` waits for `db`. -/
theorem no_deadlock_with_idle_worker :
    ∃ x : Threads (Fin 1) (Fin 1) (Fin 0) (Fin 1), x.rotates 0 = .wantDb ∧ x.compiles 0 = .writing ∧
      ¬Deadlock (Step False) x := by
  refine ⟨oneCycle (fun _ => .idle) .wantDb .writing, rfl, rfl, (no_deadlock_iff (run_oneCycle le_rfl)).mpr ?_⟩
  rintro ⟨-, hwaits⟩
  rcases hwaits 0 with ⟨hpc, -⟩ | ⟨-, hpc, -⟩
  · cases hpc
  · cases hpc

/-- One worker, one `rotate` and one compile that wait for each other. -/
theorem ingest_rotate_compile_deadlock :
    ¬∀ (writersFirst : Prop) (W R D K : ℕ), 1 ≤ W →
      ∀ (ts : List (ThreadId (Fin W) (Fin R) (Fin D) (Fin K))) (x : Threads (Fin W) (Fin R) (Fin D) (Fin K)),
        Run (Step writersFirst) start ts x → ¬Deadlock (Step writersFirst) x := by
  intro hnever
  obtain ⟨ts, x, hrun, hclosed⟩ : ∃ ts x, Run (Step False) (start : Threads (Fin 1) (Fin 1) (Fin 0) (Fin 1)) ts x ∧
      ChainClosed False x := chain_reachable le_rfl
  exact hnever False 1 1 0 1 le_rfl ts x hrun (deadlock_of_chainClosed hclosed)

end MicewriterEngine.Proofs
