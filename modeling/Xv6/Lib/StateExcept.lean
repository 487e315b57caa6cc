import Mathlib.Tactic

/-!
# Running programs of `StateT σ (Except ε)`

Kernel code is a state transformer that may stop with an error. A proof about such a program
follows one run of it: which value and state each part produced. `run_bind_eq_ok` splits a
successful run of `x >>= f` at the bind, and the simp lemmas evaluate `pure`, `throw` and a
bind of a finished `Except`, so that spec lemmas of the programs built from them can be
proved without unfolding the monad.

## Main results

* `run_bind_eq_ok`: a successful run of `x >>= f` is one of `x` followed by one of `f`.
* `bind_eq_ok`, `bind_ne_error`: the same for a plain `Except`, and an error `x >>= f` cannot
  give unless `x` or `f` does.
-/

namespace Xv6.StateExcept

variable {σ ε α β : Type} {x : StateT σ (Except ε) α} {f : α → StateT σ (Except ε) β}
  {s s'' : σ} {b : β}

@[simp]
theorem pure_eq_ok (a : α) : (pure a : Except ε α) = .ok a := rfl

@[simp]
theorem throw_eq_error (e : ε) : (throw e : Except ε α) = .error e := rfl

@[simp]
theorem ok_bind (a : α) (g : α → Except ε β) : (Except.ok a >>= g) = g a := rfl

@[simp]
theorem error_bind (e : ε) (g : α → Except ε β) : (Except.error e >>= g) = .error e := rfl

/-- A successful run of `x >>= f` is a successful run of `x` followed by one of `f`. -/
theorem run_bind_eq_ok (h : (x >>= f).run s = .ok (b, s'')) :
    ∃ a s', x.run s = .ok (a, s') ∧ (f a).run s' = .ok (b, s'') := by
  rw [StateT.run_bind] at h
  -- the run of `x` either failed, which the bind passes on, or produced `(a, s')`
  cases hx : x.run s with
  | error e => simp [hx] at h
  | ok p => exact ⟨p.1, p.2, rfl, by simpa [hx] using h⟩

/-- A successful `x >>= f` is a successful `x` followed by a successful `f`. -/
theorem bind_eq_ok {x : Except ε α} {f : α → Except ε β} (h : x >>= f = .ok b) :
    ∃ a, x = .ok a ∧ f a = .ok b := by
  cases x with
  | error e => cases h
  | ok a => exact ⟨a, rfl, h⟩

/-- `x >>= f` stops with the error `e` only if `x` does, or `f` does on what `x` gives. -/
theorem bind_ne_error {x : Except ε α} {f : α → Except ε β} {e : ε} (hx : x ≠ .error e)
    (hf : ∀ a, x = .ok a → f a ≠ .error e) : x >>= f ≠ .error e := by
  cases x with
  | error e' => simpa using hx
  | ok a => exact hf a rfl

end Xv6.StateExcept
