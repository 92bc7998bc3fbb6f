import Mathlib.Data.List.Induction
import Mathlib.Data.Set.Insert
import MicewriterEngine.Lib.Runs

/-!
# Sets of threads that wait for each other

The labels of a system are its threads. A set of threads is a wait set when each member can
only proceed after another member did. Some state has a non-empty wait set exactly when one
of its threads never proceeds again, so a state from which the system can come to rest
has none.
-/

namespace MicewriterEngine.Lib

variable {σ τ : Type*} {Step : σ → τ → σ → Prop}

/-- Whatever happens, a member of the set proceeds only after another member has. -/
def WaitSet (Step : σ → τ → σ → Prop) (x : σ) (S : Set τ) : Prop :=
  ∀ t ∈ S, ∀ ts y z, Run Step x ts y → Step y t z → ∃ u ∈ ts, u ∈ S ∧ u ≠ t

def Deadlock (Step : σ → τ → σ → Prop) (x : σ) : Prop := ∃ S : Set τ, S.Nonempty ∧ WaitSet Step x S

/-- The thread never proceeds again. -/
def Stuck (Step : σ → τ → σ → Prop) (x : σ) (t : τ) : Prop := ∀ ts y z, Run Step x ts y → ¬Step y t z

/-- Every thread can proceed. -/
def AtRest (Step : σ → τ → σ → Prop) (x : σ) : Prop := ∀ t, ∃ z, Step x t z

theorem Run.append_inv {ε : Type*} {Step : σ → ε → σ → Prop} {s u : σ} {es fs : List ε}
    (h : Run Step s (es ++ fs) u) : ∃ t, Run Step s es t ∧ Run Step t fs u := by
  induction es generalizing s with
  | nil => exact ⟨s, .nil s, h⟩
  | cons e es ih =>
    cases h with
    | cons hfirst hrest =>
      obtain ⟨t, ht, hu⟩ := ih hrest
      exact ⟨t, .cons hfirst ht, hu⟩

theorem WaitSet.notMem_of_run {x y : σ} {S : Set τ} (hS : WaitSet Step x S) {ts : List τ} (hrun : Run Step x ts y) :
    ∀ t ∈ ts, t ∉ S := by
  induction ts using List.reverseRecOn generalizing y with
  | nil => exact fun t ht => nomatch ht
  | append_singleton ts last ih =>
    obtain ⟨z, hz, hlast⟩ := hrun.append_inv
    have hbefore := ih hz
    intro t ht
    rcases List.mem_append.mp ht with ht | ht
    · exact hbefore t ht
    · rw [List.mem_singleton.mp ht]
      intro hmem
      cases hlast with
      | cons hstep _ =>
        obtain ⟨u, hu, huS, -⟩ := hS last hmem ts z _ hz hstep
        exact hbefore u hu huS

theorem WaitSet.stuck {x : σ} {S : Set τ} (hS : WaitSet Step x S) {t : τ} (ht : t ∈ S) : Stuck Step x t := by
  intro ts y z hrun hstep
  exact hS.notMem_of_run (hrun.snoc hstep) t (List.mem_append_right _ List.mem_cons_self) ht

theorem deadlock_iff_stuck {x : σ} : Deadlock Step x ↔ ∃ t, Stuck Step x t := by
  constructor
  · rintro ⟨S, ⟨t, ht⟩, hS⟩
    exact ⟨t, hS.stuck ht⟩
  · rintro ⟨t, ht⟩
    refine ⟨{t}, Set.singleton_nonempty t, ?_⟩
    rintro _ rfl ts y z hrun hstep
    exact (ht ts y z hrun hstep).elim

/-- A condition that all steps preserve and under which a thread does not proceed. -/
theorem deadlock_of_invariant {x : σ} (P : σ → Prop) (t : τ) (hx : P x) (hstep : ∀ s u s', P s → Step s u s' → P s')
    (hblocked : ∀ s s', P s → ¬Step s t s') : Deadlock Step x := by
  refine deadlock_iff_stuck.mpr ⟨t, fun ts y z hrun => ?_⟩
  exact hblocked y z (hrun.invariant P hstep hx)

theorem not_deadlock_of_rest {x y : σ} {ts : List τ} (hrun : Run Step x ts y) (hy : AtRest Step y) :
    ¬Deadlock Step x := by
  intro hdead
  obtain ⟨t, ht⟩ := deadlock_iff_stuck.mp hdead
  obtain ⟨z, hz⟩ := hy t
  exact ht ts y z hrun hz

/-- A system comes to rest when it always has a step that brings it closer. -/
theorem exists_rest {P : σ → Prop} (size : σ → ℕ)
    (hstep : ∀ s, P s → AtRest Step s ∨ ∃ t s', Step s t s' ∧ P s' ∧ size s' < size s) {x : σ} (hx : P x) :
    ∃ ts y, Run Step x ts y ∧ AtRest Step y := by
  induction hn : size x using Nat.strong_induction_on generalizing x with
  | _ n ih =>
    subst hn
    rcases hstep x hx with hrest | ⟨t, y, hxy, hy, hlt⟩
    · exact ⟨[], x, .nil x, hrest⟩
    · obtain ⟨ts, z, hrun, hz⟩ := ih (size y) hlt hy rfl
      exact ⟨t :: ts, z, .cons hxy hrun, hz⟩

end MicewriterEngine.Lib
