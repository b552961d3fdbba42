import Mathlib.Data.List.Induction
import Mathlib.Data.List.Infix

/-!
# Runs

A run performs one action after the other on a state.  Some actions are safe in the state in which
they are performed, and exactly these keep what is wanted of the state.

Main results:

- `holds_throughout_iff`: what holds at first holds throughout a run exactly when every action of
  the run is safe where it is performed.
-/

namespace FilterQuery.Run

variable {σ α : Type} {perform : σ → α → σ} {Holds : σ → Prop} {IsSafe : σ → α → Prop}

/-- What holds at first, and is kept by exactly the safe actions, holds throughout a run exactly
when every action of the run is safe where it is performed. -/
theorem holds_throughout_iff
    (hstep : ∀ state action, Holds state → (Holds (perform state action) ↔ IsSafe state action))
    {start : σ} (hstart : Holds start) (actions : List α) :
    (∀ prior, prior <+: actions → Holds (prior.foldl perform start)) ↔
      ∀ prior action, prior ++ [action] <+: actions →
        IsSafe (prior.foldl perform start) action := by
  constructor
  · intro hholds prior action hprefix
    have hbefore := hholds prior ((List.prefix_append prior [action]).trans hprefix)
    have hafter := hholds (prior ++ [action]) hprefix
    rw [List.foldl_concat] at hafter
    exact (hstep _ action hbefore).mp hafter
  · intro hsafe prior hprefix
    induction prior using List.reverseRecOn with
    | nil => exact hstart
    | append_singleton prior action ih =>
        have hbefore := ih ((List.prefix_append prior [action]).trans hprefix)
        rw [List.foldl_concat]
        exact (hstep _ action hbefore).mpr (hsafe prior action hprefix)

end FilterQuery.Run
