import MicewriterEngine.Model.Locks

/-!
# Waiting for the locks of the store

The locks are taken in order, but a compile that waits for I/O holds `db`, and the I/O needs a
worker. When every worker waits in `append_batch` behind a writer that waits for `db`, the
chain of waits is closed and stays closed.
-/

namespace MicewriterEngine.Proofs
open Lib Threads

variable {ω ρ δ κ : Type} {x y : Threads ω ρ δ κ} {writersFirst : Prop}

lemma exists_update {ι α : Type} [DecidableEq ι] {f : ι → α} {a : α} (i : ι) (b : α) (h : ∃ j, f j = a) :
    (∃ j, Function.update f i b j = a) ∨ f i = a := by
  obtain ⟨j, hj⟩ := h
  by_cases hji : j = i
  · exact Or.inr (hji ▸ hj)
  · exact Or.inl ⟨j, by rwa [Function.update_of_ne hji]⟩

lemma of_exists_update {ι α : Type} [DecidableEq ι] {f : ι → α} {i : ι} {a b : α}
    (h : ∃ j, Function.update f i b j = a) : (∃ j, f j = a) ∨ b = a := by
  obtain ⟨j, hj⟩ := h
  by_cases hji : j = i
  · subst hji
    exact Or.inr (by rwa [Function.update_self] at hj)
  · exact Or.inl ⟨j, by rwa [Function.update_of_ne hji] at hj⟩

/-- The worker waits for `active_cf` while a `rotate` has it and waits for `db`. Where writers come
first it can also wait behind a `rotate` that waits for `active_cf`, or for `db` behind a writer. -/
def WaitsBehindWriter (writersFirst : Prop) (x : Threads ω ρ δ κ) (w : ω) : Prop :=
  (x.workers w = .wantActive ∧
    ((∃ r, x.rotates r = .wantDb) ∨ (writersFirst ∧ ∃ r, x.rotates r = .wantActive))) ∨
  (writersFirst ∧ x.workers w = .wantDb ∧ x.db.writeWanted)

/-- A compile waits for I/O inside `iterate_cf` and no worker is left to deliver it. -/
def ChainClosed (writersFirst : Prop) (x : Threads ω ρ δ κ) : Prop :=
  (∃ k, x.compiles k = .writing) ∧ ∀ w, WaitsBehindWriter writersFirst x w

lemma blocked_of_waits {w : ω} (h : WaitsBehindWriter writersFirst x w) : x.Blocked writersFirst w := by
  intro pc hstep
  rcases h with ⟨hpc, ⟨r, hr⟩ | ⟨hfirst, hwanted⟩⟩ | ⟨hfirst, hpc, hwanted⟩
  · rw [hpc] at hstep
    cases hstep with
    | readActive hlock => exact hlock.1 ⟨r, by simp [hr]⟩
  · rw [hpc] at hstep
    cases hstep with
    | readActive hlock => exact hlock.2 hfirst hwanted
  · rw [hpc] at hstep
    cases hstep with
    | readDb hlock => exact hlock.2 hfirst hwanted

lemma db_readHeld {k : κ} (hk : x.compiles k = .writing) : x.db.readHeld := Or.inr ⟨k, Or.inr hk⟩

def DbExclusive (x : Threads ω ρ δ κ) : Prop := x.db.readHeld → ¬x.db.writeHeld

lemma worker_readDb {pc : Worker} (h : x.WorkerStep writersFirst pc .inDb) : ¬x.db.writeHeld := by
  cases h with
  | readDb hlock => exact hlock.1

lemma rotate_writeDb {pc : Rotate} (h : x.RotateStep pc .inDb) : ¬x.db.readHeld := by
  cases h with
  | writeDb hlock => exact hlock.2

lemma drop_writeDb {pc : Drop} (h : x.DropStep pc .inDb) : ¬x.db.readHeld := by
  cases h with
  | writeDb hlock => exact hlock.2

lemma compile_readDb {pc pc' : Compile} (h : x.CompileStep writersFirst pc pc') (hpc' : pc' = .inDb ∨ pc' = .writing) :
    ¬x.db.writeHeld ∨ pc = .inDb ∨ pc = .writing := by
  cases h with
  | readDb hlock => exact Or.inl hlock.1
  | write => exact Or.inr (Or.inl rfl)
  | written hfree => exact Or.inr (Or.inr rfl)
  | _ => rcases hpc' with hpc' | hpc' <;> cases hpc'

lemma rotate_waits {r : ρ} {pc : Rotate} (hread : x.db.readHeld) (h : x.RotateStep (x.rotates r) pc) :
    x.rotates r ≠ .wantDb := by
  intro hr
  rw [hr] at h
  cases h with
  | writeDb hlock => exact hlock.2 hread

lemma dbExclusive_start : DbExclusive (start : Threads ω ρ δ κ) := by
  rintro (⟨w, hw⟩ | ⟨k, hk | hk⟩)
  · cases hw
  · cases hk
  · cases hk

variable [DecidableEq ω] [DecidableEq ρ] [DecidableEq δ] [DecidableEq κ] {t : ThreadId ω ρ δ κ}

lemma dbExclusive_step (hx : DbExclusive x) (h : Step writersFirst x t y) : DbExclusive y := by
  intro hread hwrite
  cases h with
  | worker w h =>
    rcases hread with hw | hk
    · rcases of_exists_update hw with hw | rfl
      · exact hx (Or.inl hw) hwrite
      · exact worker_readDb h hwrite
    · exact hx (Or.inr hk) hwrite
  | rotate r h =>
    rcases hwrite with hr | hd
    · rcases of_exists_update hr with hr | rfl
      · exact hx hread (Or.inl hr)
      · exact rotate_writeDb h hread
    · exact hx hread (Or.inr hd)
  | drop d h =>
    rcases hwrite with hr | hd
    · exact hx hread (Or.inl hr)
    · rcases of_exists_update hd with hd | rfl
      · exact hx hread (Or.inr hd)
      · exact drop_writeDb h hread
  | @compile k pc h =>
    rcases hread with hw | ⟨k', hk'⟩
    · exact hx (Or.inl hw) hwrite
    · by_cases hkk : k' = k
      · subst hkk
        simp only [Function.update_self] at hk'
        rcases compile_readDb h hk' with hfree | hpc
        · exact hfree hwrite
        · exact hx (Or.inr ⟨k', hpc⟩) hwrite
      · simp only [Function.update_of_ne hkk] at hk'
        exact hx (Or.inr ⟨k', hk'⟩) hwrite

lemma db_writeWanted_step (hread : x.db.readHeld) (hwanted : x.db.writeWanted) (h : Step writersFirst x t y) :
    y.db.writeWanted := by
  cases h with
  | worker w h => exact hwanted
  | rotate r h =>
    refine hwanted.imp_left (fun hr => ?_)
    exact (exists_update r _ hr).resolve_right (rotate_waits hread h)
  | drop d h =>
    refine hwanted.imp_right (fun hd => ?_)
    refine (exists_update d _ hd).resolve_right (fun hpc => ?_)
    rw [hpc] at h
    cases h with
    | writeDb hlock => exact hlock.2 hread
  | compile k h => exact hwanted

lemma chain_step {k : κ} (hk : x.compiles k = .writing) (hw : ∀ w, WaitsBehindWriter writersFirst x w)
    (h : Step writersFirst x t y) : y.compiles k = .writing ∧ ∀ w, WaitsBehindWriter writersFirst y w := by
  have hread := db_readHeld hk
  have hwanted := fun hx => db_writeWanted_step hread hx h
  cases h with
  | worker w h => exact (blocked_of_waits (hw w) _ h).elim
  | @rotate r pc h =>
    refine ⟨hk, fun w => ?_⟩
    rcases hw w with ⟨hpc, hr | ⟨hfirst, hr⟩⟩ | ⟨hfirst, hpc, hx⟩
    · exact Or.inl ⟨hpc, Or.inl ((exists_update r pc hr).resolve_right (rotate_waits hread h))⟩
    · rcases exists_update r pc hr with hr | hr
      · exact Or.inl ⟨hpc, Or.inr ⟨hfirst, hr⟩⟩
      · rw [hr] at h
        cases h with
        | writeActive hlock => exact Or.inl ⟨hpc, Or.inl ⟨r, Function.update_self _ _ _⟩⟩
    · exact Or.inr ⟨hfirst, hpc, hwanted hx⟩
  | drop d h => exact ⟨hk, fun w => (hw w).imp_right (fun ⟨hfirst, hpc, hx⟩ => ⟨hfirst, hpc, hwanted hx⟩)⟩
  | @compile k' pc h =>
    refine ⟨?_, hw⟩
    by_cases hkk : k = k'
    · subst hkk
      rw [hk] at h
      cases h with
      | written hfree =>
        obtain ⟨w, hfree⟩ := hfree
        exact (hfree (blocked_of_waits (hw w))).elim
    · exact (Function.update_of_ne hkk _ _).trans hk

theorem deadlock_of_chainClosed (h : ChainClosed writersFirst x) : Deadlock (Step writersFirst) x := by
  obtain ⟨⟨k, hk⟩, hw⟩ := h
  refine deadlock_of_invariant (fun y => y.compiles k = .writing ∧ ∀ w, WaitsBehindWriter writersFirst y w)
    (.compile k) ⟨hk, hw⟩ (fun s u s' hs hstep => chain_step hs.1 hs.2 hstep) ?_
  rintro s s' ⟨hs, hws⟩ hstep
  cases hstep with
  | compile k h =>
    rw [hs] at h
    cases h with
    | written hfree =>
      obtain ⟨w, hw⟩ := hfree
      exact hw (blocked_of_waits (hws w))

end MicewriterEngine.Proofs
