import Mathlib.Data.List.Basic
import Mathlib.Tactic.Common

/-!
# Programs that raise

A program in the monad `Except ε` either returns or stops with an exception. The lemmas take apart
a program that has returned: `ok_of_bind` its steps, `mapM_eq_ok` and `foldlM_inv` its loops.
-/

namespace LeadPulse
namespace Raises

variable {ε α β : Type}

/-- A program that has returned has made its first step. -/
theorem ok_of_bind {x : Except ε α} {f : α → Except ε β} {b : β} (h : (x >>= f) = .ok b) :
    ∃ a, x = .ok a ∧ f a = .ok b := by
  cases x with
  | error e => cases h
  | ok a => exact ⟨a, rfl, h⟩

theorem bind_eq_ok_iff {x : Except ε α} {f : α → Except ε β} {b : β} :
    (x >>= f) = .ok b ↔ ∃ a, x = .ok a ∧ f a = .ok b := by
  constructor
  · exact ok_of_bind
  · rintro ⟨a, rfl, h⟩
    exact h

/-- A check, and what comes after it. -/
theorem check_eq_ok_iff {x : Except ε Unit} {f : Unit → Except ε β} {b : β} :
    (x >>= f) = .ok b ↔ x = .ok () ∧ f () = .ok b := by
  rw [bind_eq_ok_iff]
  exact ⟨fun ⟨_, hx, hf⟩ => ⟨hx, hf⟩, fun ⟨hx, hf⟩ => ⟨(), hx, hf⟩⟩

/-- A loop whose turns all return. -/
theorem mapM_eq_ok {f : α → Except ε β} {g : α → β} {as : List α}
    (h : ∀ a ∈ as, f a = .ok (g a)) : as.mapM f = .ok (as.map g) := by
  induction as with
  | nil => rfl
  | cons a as ih =>
    rw [List.mapM_cons, h a List.mem_cons_self, ih fun b hb => h b (List.mem_cons_of_mem a hb)]
    rfl

/-- What every turn keeps holds after a loop that returns. -/
theorem foldlM_inv {P : β → Prop} {f : β → α → Except ε β}
    (hstep : ∀ s a s', P s → f s a = .ok s' → P s') {as : List α} {s s' : β} (h₀ : P s)
    (h : as.foldlM f s = .ok s') : P s' := by
  induction as generalizing s with
  | nil =>
    obtain rfl := Except.ok.inj h
    exact h₀
  | cons a as ih =>
    rw [List.foldlM_cons] at h
    obtain ⟨t, ht, h⟩ := ok_of_bind h
    exact ih (hstep s a t h₀ ht) h

end Raises
end LeadPulse
