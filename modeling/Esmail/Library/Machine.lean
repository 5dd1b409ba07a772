/-
# Labelled machines, and the runs that keep to a condition

A `Machine` is a state type, a set of states a run may start in, and a PARTIAL step function:
`step s a = none` says that the action `a` cannot happen in `s`.  Everything a run does not
control (which message arrives, which queue is served first, what the user clicks) is part of
the action, so that a run is a list of actions and every interleaving is such a list.

`Reach ok s` is the set of states some run leads to, all of whose steps meet the condition
`ok` on the state before the step and on the action.  The unconditional runs are those at
`fun _ _ => True`.  Two rules carry everything below: `Reach.invariant`, the induction over a
run, and `reach_of_trace`, which turns a computed run into a member of `Reach`.
-/
import Mathlib.Tactic.Common

namespace Transition

/-- A machine: the states a run may start in, and what an action makes of a state. -/
structure Machine (σ α : Type) where
  Init : σ → Prop
  step : σ → α → Option σ

namespace Machine

variable {σ α : Type} {M : Machine σ α}

/-! ## 1. Reachability under a condition -/

/-- The states reached by the runs all of whose steps meet `ok`. -/
inductive Reach (M : Machine σ α) (ok : σ → α → Prop) : σ → Prop
  | init {s : σ} : M.Init s → Reach M ok s
  | step {s s' : σ} {a : α} : Reach M ok s → ok s a → M.step s a = some s' → Reach M ok s'

/-- The condition every step meets: the runs are all the runs. -/
def any (_ : σ) (_ : α) : Prop := True

/-- The induction over a run: a property of the initial states that every step meeting
the condition preserves holds of every state reached.  The step may use that the state before
it is reached, that is, any invariant proved earlier. -/
theorem Reach.invariant {ok : σ → α → Prop} {P : σ → Prop} (hinit : ∀ s, M.Init s → P s)
    (hstep : ∀ s a s', Reach M ok s → P s → ok s a → M.step s a = some s' → P s') {s : σ}
    (h : Reach M ok s) : P s := by
  induction h with
  | init h0 => exact hinit _ h0
  | step hr hok hst ih => exact hstep _ _ _ hr ih hok hst

/-- A weaker condition reaches more states. -/
theorem Reach.mono {ok ok' : σ → α → Prop} (hsub : ∀ s a, ok s a → ok' s a) {s : σ}
    (h : Reach M ok s) : Reach M ok' s := by
  induction h with
  | init h0 => exact Reach.init h0
  | step _ hok hst ih => exact Reach.step ih (hsub _ _ hok) hst

/-- A run of a machine that keeps something more, seen without it. -/
theorem Reach.forget {τ : Type} {N : Machine τ α} {ok : σ → α → Prop} (f : σ → τ)
    (hinit : ∀ s, M.Init s → N.Init (f s))
    (hstep : ∀ s a s', M.step s a = some s' → N.step (f s) a = some (f s')) {s : σ}
    (h : Reach M ok s) : Reach N any (f s) := by
  induction h with
  | init h0 => exact Reach.init (hinit _ h0)
  | step _ _ hst ih => exact Reach.step ih trivial (hstep _ _ _ hst)

/-! ## 2. Computed runs -/

/-- The state a list of actions leads to, `none` as soon as one of them cannot happen or does
not meet the condition. -/
def trace (M : Machine σ α) (ok : σ → α → Prop) [∀ s a, Decidable (ok s a)] :
    σ → List α → Option σ
  | s, [] => some s
  | s, a :: as =>
    if ok s a then
      match M.step s a with
      | some s' => trace M ok s' as
      | none => none
    else none

theorem Reach.trace {ok : σ → α → Prop} [∀ s a, Decidable (ok s a)] :
    ∀ (as : List α) {s s' : σ}, Reach M ok s → M.trace ok s as = some s' → Reach M ok s'
  | [], s, s', hr, ht => by
    simp only [Machine.trace, Option.some.injEq] at ht
    exact ht ▸ hr
  | a :: as, s, s', hr, ht => by
    simp only [Machine.trace] at ht
    split at ht
    · rename_i hok
      cases hst : M.step s a with
      | none => rw [hst] at ht; exact absurd ht (by simp)
      | some s1 =>
        rw [hst] at ht
        exact Reach.trace as (Reach.step hr hok hst) ht
    · exact absurd ht (by simp)

/-- A computed run from an initial state ends in a reached state. -/
theorem reach_of_trace {ok : σ → α → Prop} [∀ s a, Decidable (ok s a)] {s s' : σ} (as : List α)
    (h0 : M.Init s) (ht : M.trace ok s as = some s') : Reach M ok s' :=
  Reach.trace as (Reach.init h0) ht

/-- The form a computed run is used in: what `p` finds true of the last state of the trace is
true of a reached state. -/
theorem exists_reach_of_trace (M : Machine σ α) (ok : σ → α → Prop) [∀ s a, Decidable (ok s a)]
    {s : σ} (as : List α) (p : σ → Bool) (h0 : M.Init s) (ht : (M.trace ok s as).any p = true) :
    ∃ s', Reach M ok s' ∧ p s' = true := by
  cases hs : M.trace ok s as with
  | none =>
    rw [hs] at ht
    exact absurd ht (by simp)
  | some s' =>
    rw [hs] at ht
    exact ⟨s', reach_of_trace as h0 hs, ht⟩

/-- The same for one more step after the run. -/
theorem exists_step_of_trace (M : Machine σ α) (ok : σ → α → Prop) [∀ s a, Decidable (ok s a)]
    {s : σ} (as : List α) (a : α) (p : σ → σ → Bool) (h0 : M.Init s)
    (ht : (M.trace ok s as).any (fun s1 => (M.step s1 a).any (p s1)) = true) :
    ∃ s1 s2, Reach M ok s1 ∧ M.step s1 a = some s2 ∧ p s1 s2 = true := by
  obtain ⟨s1, hr, hp⟩ := exists_reach_of_trace M ok as _ h0 ht
  cases hst : M.step s1 a with
  | none =>
    rw [hst] at hp
    exact absurd hp (by simp)
  | some s2 =>
    rw [hst] at hp
    exact ⟨s1, s2, hr, hst, hp⟩

instance (s : σ) (a : α) : Decidable (any s a) := isTrue trivial

end Machine

end Transition
