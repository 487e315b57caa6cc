import Mathlib.Logic.Basic
import Mathlib.Data.List.Basic

/-!
# Runs of a system that takes one enabled step at a time

A concurrent system whose threads each take atomic steps is modelled by a step function
`next : σ → ε → Option σ`: from state `s`, the step `e` (which names the thread and what it
does) either leads to `next s e = some s'` or is not enabled, as when the thread would sleep.
Every interleaving of the threads is a list of steps.

* `Reachable next init`: the states some interleaving leads to from `init`.
* `run next s es`: the state after the steps `es`, when each is enabled in turn;
  `run_append` splits a trace.
* `Reachable.of_run`, `exists_of_run`: a concrete run, checked by evaluation, gives a
  reachable state.
* `Reachable.induction_of_step`: a property of `init` that every step keeps holds of every
  reachable state.
-/

namespace Xv6.Trace

variable {σ ε : Type*} {next : σ → ε → Option σ} {init : σ}

/-- The states reachable from `init` by enabled steps. -/
inductive Reachable (next : σ → ε → Option σ) (init : σ) : σ → Prop where
  | init : Reachable next init init
  | step {s s' : σ} (e : ε) : Reachable next init s → next s e = some s' → Reachable next init s'

/-- The state after the steps `es` from `s`, or `none` when one of them is not enabled. -/
def run (next : σ → ε → Option σ) : σ → List ε → Option σ
  | s, [] => some s
  | s, e :: es => (next s e).bind fun s' => run next s' es

@[simp]
theorem run_nil (s : σ) : run next s [] = some s := rfl

@[simp]
theorem run_cons (s : σ) (e : ε) (es : List ε) :
    run next s (e :: es) = (next s e).bind fun s' => run next s' es := rfl

/-- A trace runs as its first part followed by the rest. -/
theorem run_append (s : σ) (es es' : List ε) :
    run next s (es ++ es') = (run next s es).bind fun s' => run next s' es' := by
  induction es generalizing s with
  | nil => rfl
  | cons e es ih =>
    simp only [List.cons_append, run_cons, ih, Option.bind_assoc]

/-- Running a trace from a reachable state ends in a reachable state. -/
theorem Reachable.of_run {s s' : σ} {es : List ε} (hs : Reachable next init s)
    (h : run next s es = some s') : Reachable next init s' := by
  induction es generalizing s with
  | nil =>
    simp only [run_nil, Option.some.injEq] at h
    exact h ▸ hs
  | cons e es ih =>
    rw [run_cons] at h
    -- the first step is enabled, and the rest of the trace runs from where it leads
    cases hn : next s e with
    | none => simp [hn] at h
    | some s₁ =>
      rw [hn, Option.bind_some] at h
      exact ih (hs.step e hn) h

/-- A trace from `init` that ends where `p` holds shows a reachable state where `p` holds. -/
theorem exists_of_run {es : List ε} {p : σ → Bool} (h : (run next init es).map p = some true) :
    ∃ s, Reachable next init s ∧ p s = true := by
  cases hr : run next init es with
  | none => simp [hr] at h
  | some s =>
    simp only [hr, Option.map_some, Option.some.injEq] at h
    exact ⟨s, Reachable.init.of_run hr, h⟩

/-- An invariant: true of `init` and kept by every enabled step, so true of every reachable
state. -/
theorem Reachable.induction_of_step {P : σ → Prop} (h0 : P init)
    (hstep : ∀ s e s', P s → next s e = some s' → P s') {s : σ} (hs : Reachable next init s) :
    P s := by
  induction hs with
  | init => exact h0
  | step e _ hn ih => exact hstep _ e _ ih hn

end Xv6.Trace
