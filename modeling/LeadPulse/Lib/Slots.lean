import Mathlib.Logic.Function.Basic
import Mathlib.Tactic.Common

/-!
# Workers in slots

A pool of workers is a map from slot numbers to what the worker in the slot is doing, `none`
for a free slot. `All P f` says that `P` holds of every worker with its slot.
-/

namespace LeadPulse
namespace Slots

variable {α : Type*} {P Q : ℕ → α → Prop} {f : ℕ → Option α} {i : ℕ} {a : α}

def All (P : ℕ → α → Prop) (f : ℕ → Option α) : Prop := ∀ i a, f i = some a → P i a

theorem All.none : All P fun _ => none := by
  intro i a h
  cases h

theorem All.mono (h : All P f) (hPQ : ∀ i a, f i = some a → P i a → Q i a) : All Q f :=
  fun i a ha => hPQ i a ha (h i a ha)

/-- A worker enters slot `i`, or goes on in it. -/
theorem All.set (h : All P f) (ha : P i a) : All P (Function.update f i (some a)) := by
  intro j b hb
  by_cases hj : j = i
  · subst hj
    rw [Function.update_self] at hb
    cases hb
    exact ha
  · rw [Function.update_of_ne hj] at hb
    exact h j b hb

/-- Slot `i` becomes free; what is needed of the other workers need not hold of that one. -/
theorem All.clear_of (h : ∀ j a, j ≠ i → f j = some a → P j a) :
    All P (Function.update f i .none) := by
  intro j b hb
  by_cases hj : j = i
  · subst hj
    rw [Function.update_self] at hb
    cases hb
  · rw [Function.update_of_ne hj] at hb
    exact h j b hj hb

theorem All.clear (h : All P f) : All P (Function.update f i .none) :=
  All.clear_of fun j b _ hb => h j b hb

end Slots
end LeadPulse
