import Mathlib.Logic.Function.Basic
import Mathlib.Order.Lattice
import Mathlib.Tactic.Common

/-!
# Keys that expire

A store in which every key is set together with a lifetime and is gone when that has passed. The
store remembers for each key the time until which it lives; a key whose time has come reads as
one that was never set, `alive`, but can still be told apart in a statement about the past.
-/

namespace LeadPulse

/-- For each key that has been set, the time at which it expires. -/
abbrev Expiry (K T : Type*) := K → Option T

namespace Expiry

variable {K T : Type*} {store : Expiry K T} {j k : K}

/-- `k` has been set and has not expired. -/
def alive [LinearOrder T] (store : Expiry K T) (k : K) (t : T) : Bool :=
  (store k).any fun until' => t < until'

/-- A key lives exactly as long as it was set for. -/
theorem alive_of_eq [LinearOrder T] {until' t : T} (h : store k = some until') :
    store.alive k t = true ↔ t < until' := by
  unfold alive
  rw [h, Option.any_some, decide_eq_true_eq]

section Setex

variable [DecidableEq K] [Add T] {now ttl : T}

/-- Set `k` for the span `ttl`, whatever lifetime it had before. -/
def setex (store : Expiry K T) (k : K) (now ttl : T) : Expiry K T :=
  Function.update store k (some (now + ttl))

@[simp] theorem setex_self : store.setex k now ttl k = some (now + ttl) :=
  Function.update_self _ _ _

theorem setex_of_ne (h : j ≠ k) : store.setex k now ttl j = store j :=
  Function.update_of_ne h _ _

/-- A key that has been set stays so. -/
theorem setex_ne_none (h : store j ≠ none) : store.setex k now ttl j ≠ none := by
  by_cases hj : j = k
  · subst hj
    rw [setex_self]
    exact Option.some_ne_none _
  · rw [setex_of_ne hj]
    exact h

end Setex

end Expiry
end LeadPulse
