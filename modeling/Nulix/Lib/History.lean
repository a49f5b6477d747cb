import Mathlib.Algebra.Ring.Parity
import Mathlib.Data.List.Induction

/-!
# States that are views of a history

A state reached by folding events into it forgets how it was reached. Two kinds of view of such a
state depend on the history in a simple way: one that some events overwrite holds what the last of
these wrote, and one that some events toggle holds the parity of their number.
-/

namespace History

variable {α σ β : Type} {step : σ → α → σ}

/-- The last of the events that write decides. -/
theorem view_latest (view : σ → β) (writes : α → Bool) (value : α → β)
    (written : ∀ s e, view (step s e) = if writes e then value e else view s) (events : List α)
    (s : σ) :
    view (events.foldl step s) = ((events.filter writes).getLast?.map value).getD (view s) := by
  induction events using List.reverseRecOn with
  | nil => rfl
  | append_singleton events e ih =>
    rw [List.foldl_append, List.filter_append]
    change view (step (events.foldl step s) e) = _
    rw [written]
    cases h : writes e with
    | false => simpa [h] using ih
    | true => simp [h]

/-- Every toggle counts. -/
theorem view_parity (view : σ → Prop) (toggles : α → Bool)
    (kept : ∀ s e, toggles e = false → (view (step s e) ↔ view s))
    (toggled : ∀ s e, toggles e = true → (view (step s e) ↔ ¬view s)) (events : List α) {s : σ}
    (off : ¬view s) : view (events.foldl step s) ↔ Odd (events.countP toggles) := by
  induction events using List.reverseRecOn with
  | nil => simpa using off
  | append_singleton events e ih =>
    rw [List.foldl_append, List.countP_append]
    change view (step (events.foldl step s) e) ↔ _
    cases h : toggles e with
    | false => simpa [h] using (kept _ e h).trans ih
    | true =>
      rw [toggled _ e h, ih]
      simp [h, Nat.odd_add_one]

end History
