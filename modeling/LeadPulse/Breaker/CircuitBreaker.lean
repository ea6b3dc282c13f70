import Mathlib.Algebra.Order.Ring.Rat
import Mathlib.Tactic.Linarith

/-!
# The circuit breaker of the API clients

`CircuitBreaker` of `services/api/base_client.py`: closed, open after `failureThreshold`
consecutive failures, half-open once `recoveryTimeout` seconds have passed. The clock
(`time.monotonic()`) is an argument of the methods that read it, in seconds.

`record_success`, `record_failure` and `allow_request` run without an await, so each is
one function here and one atomic step of a client in `Breaker.Client`.
-/

namespace LeadPulse

/-- `_CLOSED`, `_OPEN` and `_HALF_OPEN`. -/
inductive BreakerState where
  | closed
  | opened
  | halfOpen
deriving DecidableEq, Repr

/-- The attributes of a `CircuitBreaker`. -/
structure CircuitBreaker where
  failureThreshold : ℕ
  recoveryTimeout : ℚ
  state : BreakerState
  failureCount : ℕ
  openedAt : ℚ
  halfOpenProbeSent : Bool
deriving DecidableEq, Repr

namespace CircuitBreaker

/-- `CircuitBreaker.__init__`. -/
def new (failureThreshold : ℕ) (recoveryTimeout : ℚ) : CircuitBreaker where
  failureThreshold := failureThreshold
  recoveryTimeout := recoveryTimeout
  state := .closed
  failureCount := 0
  openedAt := 0
  halfOpenProbeSent := false

def secondsSinceOpen (cb : CircuitBreaker) (now : ℚ) : ℚ := now - cb.openedAt

/-- Reading the property `state`: an open breaker whose timeout has run out becomes
half-open, with its probe still to be sent. -/
def readState (cb : CircuitBreaker) (now : ℚ) : CircuitBreaker :=
  if cb.state = .opened ∧ cb.recoveryTimeout ≤ cb.secondsSinceOpen now then
    { cb with state := .halfOpen, halfOpenProbeSent := false }
  else cb

def recordSuccess (cb : CircuitBreaker) : CircuitBreaker :=
  { cb with failureCount := 0, state := .closed, halfOpenProbeSent := false }

def recordFailure (cb : CircuitBreaker) (now : ℚ) : CircuitBreaker :=
  let count := cb.failureCount + 1
  -- a probe that fails opens the breaker again, whatever the count
  if cb.state = .halfOpen ∨ cb.failureThreshold ≤ count then
    { cb with failureCount := count, state := .opened, openedAt := now,
              halfOpenProbeSent := false }
  else { cb with failureCount := count }

/-- Whether a request may go out, and the breaker afterwards: the request that is let
through in the half-open state takes the probe. -/
def allowRequest (cb : CircuitBreaker) (now : ℚ) : Bool × CircuitBreaker :=
  let cb := cb.readState now
  if cb.state = .closed then (true, cb)
  else if cb.state = .halfOpen ∧ cb.halfOpenProbeSent = false then
    (true, { cb with halfOpenProbeSent := true })
  else (false, cb)

/-! ## What each method leaves unchanged -/

@[simp] theorem readState_failureThreshold (cb : CircuitBreaker) (now : ℚ) :
    (cb.readState now).failureThreshold = cb.failureThreshold := by
  unfold readState; split <;> rfl

@[simp] theorem readState_recoveryTimeout (cb : CircuitBreaker) (now : ℚ) :
    (cb.readState now).recoveryTimeout = cb.recoveryTimeout := by
  unfold readState; split <;> rfl

@[simp] theorem readState_failureCount (cb : CircuitBreaker) (now : ℚ) :
    (cb.readState now).failureCount = cb.failureCount := by
  unfold readState; split <;> rfl

@[simp] theorem readState_openedAt (cb : CircuitBreaker) (now : ℚ) :
    (cb.readState now).openedAt = cb.openedAt := by
  unfold readState; split <;> rfl

/-- A breaker that is closed before the read is closed after it, and conversely. -/
@[simp] theorem readState_state_closed (cb : CircuitBreaker) (now : ℚ) :
    (cb.readState now).state = .closed ↔ cb.state = .closed := by
  unfold readState
  split
  · rename_i h
    simp [h.1]
  · rfl

/-- What `allow_request` answers and does, case by case. -/
theorem allowRequest_cases (cb : CircuitBreaker) (now : ℚ) :
    (cb.state = .closed ∧ cb.allowRequest now = (true, cb)) ∨
    ((cb.readState now).state = .halfOpen ∧ (cb.readState now).halfOpenProbeSent = false ∧
      cb.allowRequest now = (true, { cb.readState now with halfOpenProbeSent := true })) ∨
    (cb.state = .halfOpen ∧ cb.halfOpenProbeSent = true ∧
      cb.allowRequest now = (false, cb)) ∨
    (cb.state = .opened ∧ cb.secondsSinceOpen now < cb.recoveryTimeout ∧
      cb.allowRequest now = (false, cb)) := by
  rcases hs : cb.state with _ | _ | _
  · exact Or.inl ⟨rfl, by simp [allowRequest, readState, hs]⟩
  · -- the read of `state` makes an open breaker half-open once the timeout is over
    by_cases ht : cb.recoveryTimeout ≤ cb.secondsSinceOpen now
    · exact Or.inr (Or.inl (by simp [allowRequest, readState, hs, ht]))
    · refine Or.inr (Or.inr (Or.inr ⟨rfl, lt_of_not_ge ht, ?_⟩))
      simp [allowRequest, readState, hs, ht]
  · by_cases hp : cb.halfOpenProbeSent = true
    · refine Or.inr (Or.inr (Or.inl ⟨rfl, hp, ?_⟩))
      simp [allowRequest, readState, hs, hp]
    · exact Or.inr (Or.inl (by simp [allowRequest, readState, hs, hp]))

/-- What `record_failure` does: it opens the breaker at `now`, or only counts. -/
theorem recordFailure_cases (cb : CircuitBreaker) (now : ℚ) :
    ((cb.state = .halfOpen ∨ cb.failureThreshold ≤ cb.failureCount + 1) ∧
      cb.recordFailure now = { cb with failureCount := cb.failureCount + 1, state := .opened,
                                       openedAt := now, halfOpenProbeSent := false }) ∨
    (cb.state ≠ .halfOpen ∧ cb.failureCount + 1 < cb.failureThreshold ∧
      cb.recordFailure now = { cb with failureCount := cb.failureCount + 1 }) := by
  by_cases h : cb.state = .halfOpen ∨ cb.failureThreshold ≤ cb.failureCount + 1
  · exact Or.inl ⟨h, by simp [recordFailure, h]⟩
  · refine Or.inr ⟨fun hs => h (Or.inl hs), ?_, by simp [recordFailure, h]⟩
    exact not_le.mp fun hc => h (Or.inr hc)

end CircuitBreaker
end LeadPulse
