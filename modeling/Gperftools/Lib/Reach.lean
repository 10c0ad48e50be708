import Mathlib.Logic.Function.Basic

/-!
# Reachable states

A system of state `σ` moves by events `ε`: `step s e` is the state after the
event `e`, or `none` where `e` cannot happen in `s`. The events of a system of
threads are the atomic actions of each thread, with the choices the hardware
and the kernel make, and any order of them is an interleaving; the states that
some interleaving leads to from `init` are `Reachable step init`.

* `Reachable.invariant`: a property that holds initially, and that every step
  from a reachable state keeps, holds of every reachable state;
* `Reachable.of_run`: a run of events, `List.foldlM step`, stays among the
  reachable states; this is how a concrete interleaving is checked;
* `Reachable.map`: a map under which every step is a step of a second system,
  or no move of it, takes reachable states to reachable states. A component of
  a larger system (a lock inside the code that uses it) thus inherits the
  invariants of the component alone.
-/

variable {σ σ' ε ε' : Type*}

/-- The states that some sequence of events leads to from `init`. -/
inductive Reachable (step : σ → ε → Option σ) (init : σ) : σ → Prop
  | init : Reachable step init init
  | step {s s' : σ} (e : ε) : Reachable step init s → step s e = some s' → Reachable step init s'

namespace Reachable

variable {step : σ → ε → Option σ} {init : σ}

/-- The induction over the events: the step may use that the state before it
    is reachable, and so every invariant proved before. -/
theorem invariant {P : σ → Prop} (h0 : P init)
    (hstep : ∀ {s s' : σ} (e : ε), Reachable step init s → P s → step s e = some s' → P s')
    {s : σ} (h : Reachable step init s) : P s := by
  induction h with
  | init => exact h0
  | step e hs he ih => exact hstep e hs ih he

theorem of_run {s : σ} (hs : Reachable step init s) :
    ∀ (evs : List ε) {s' : σ}, evs.foldlM step s = some s' → Reachable step init s'
  | [], s', h => by
    rw [List.foldlM_nil] at h
    exact Option.some_inj.mp h ▸ hs
  | e :: evs, s', h => by
    rw [List.foldlM_cons] at h
    obtain ⟨s₁, h₁, h⟩ := Option.bind_eq_some_iff.mp h
    exact of_run (hs.step e h₁) evs h

/-- A simulation: each step of the first system moves the image by one step
    of the second, or leaves it where it is. -/
theorem map {step' : σ' → ε' → Option σ'} (f : σ → σ')
    (hf : ∀ {s s' : σ} (e : ε), step s e = some s' → f s' = f s ∨ ∃ e', step' (f s) e' = some (f s'))
    {s : σ} (h : Reachable step init s) : Reachable step' (f init) (f s) := by
  induction h with
  | init => exact .init
  | step e _ he ih =>
    rcases hf e he with heq | ⟨e', he'⟩
    · exact heq ▸ ih
    · exact ih.step e' he'

end Reachable
