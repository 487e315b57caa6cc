import Mathlib.Logic.Function.Basic
import Mathlib.Data.List.Basic

/-!
# Sequences of single-cell writes

A store `α → β` changed by a list of writes `(a, b)`, applied oldest first. A device whose
single-cell writes are atomic and ordered is in the state `applyWrites (ws.take k) d` after a
crash that lets exactly the first `k` writes of `ws` reach it, so crash reasoning reduces to
these lemmas.

* `applyWrites_of_not_mem`: a cell no write names keeps its value.
* `applyWrites_eq_of_mem`: a cell all of whose writes agree holds their value.
-/

namespace Xv6.Writes

variable {α β : Type*} [DecidableEq α]

/-- Apply the writes `ws` to the store `d`, oldest first. -/
def applyWrites (ws : List (α × β)) (d : α → β) : α → β :=
  ws.foldl (fun d w => Function.update d w.1 w.2) d

@[simp]
theorem applyWrites_nil (d : α → β) : applyWrites [] d = d := rfl

@[simp]
theorem applyWrites_cons (w : α × β) (ws : List (α × β)) (d : α → β) :
    applyWrites (w :: ws) d = applyWrites ws (Function.update d w.1 w.2) := rfl

theorem applyWrites_append (ws vs : List (α × β)) (d : α → β) :
    applyWrites (ws ++ vs) d = applyWrites vs (applyWrites ws d) := by
  simp [applyWrites, List.foldl_append]

@[simp]
theorem applyWrites_singleton (w : α × β) (d : α → β) :
    applyWrites [w] d = Function.update d w.1 w.2 := rfl

/-- A cell that no write names keeps its value. -/
theorem applyWrites_of_not_mem {ws : List (α × β)} {a : α} (h : ∀ w ∈ ws, w.1 ≠ a)
    (d : α → β) : applyWrites ws d a = d a := by
  induction ws generalizing d with
  | nil => rfl
  | cons w ws ih =>
    rw [applyWrites_cons, ih (fun v hv => h v (List.mem_cons_of_mem _ hv))]
    exact Function.update_of_ne (h w List.mem_cons_self).symm _ _

/-- A cell written by the last write of a list holds its value. -/
theorem applyWrites_append_singleton (ws : List (α × β)) (a : α) (b : β) (d : α → β) :
    applyWrites (ws ++ [(a, b)]) d a = b := by
  simp [applyWrites_append]

/-- A cell named by some write, where every write naming it carries the value `b`, holds `b`. -/
theorem applyWrites_eq_of_mem {ws : List (α × β)} {a : α} {b : β}
    (hval : ∀ w ∈ ws, w.1 = a → w.2 = b) (hmem : ∃ w ∈ ws, w.1 = a) (d : α → β) :
    applyWrites ws d a = b := by
  induction ws generalizing d with
  | nil => simp at hmem
  | cons w ws ih =>
    rw [applyWrites_cons]
    have htail : ∀ v ∈ ws, v.1 = a → v.2 = b := fun v hv => hval v (List.mem_cons_of_mem _ hv)
    by_cases hlater : ∃ v ∈ ws, v.1 = a
    · exact ih htail hlater _
    · -- the head is the only write naming `a`
      push Not at hlater
      obtain ⟨v, hv, hva⟩ := hmem
      have hw : w.1 = a := by
        rcases List.mem_cons.mp hv with rfl | hv
        · exact hva
        · exact absurd hva (hlater v hv)
      rw [applyWrites_of_not_mem hlater, ← hw, Function.update_self]
      exact hval w List.mem_cons_self hw

end Xv6.Writes
