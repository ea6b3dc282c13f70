import LeadPulse.Breaker.Client

/-!
# When the circuit breaker recovers

A breaker recovers if, with no call in flight and `recovery_timeout` seconds after the last
recorded event, the next `allow_request` lets a request through. `Recovers` says so of one
state; the question is whether it holds in every state that concurrent calls can reach.

The half-open probe is the one thing that can be lost: `allow_request` hands it out, only
`record_success` and `record_failure` take it back, and a call can end without either
(empty token bucket, 429, 401, 403). `LosesProbe` is the step in which that happens to the
last call in flight, and `recovers_iff` shows that nothing else goes wrong.
-/

namespace LeadPulse
namespace ClientState

open CircuitBreaker

/-- With no call in flight and the recovery timeout gone by since the last event, the next
request is let through. -/
def Recovers (s : ClientState) : Prop :=
  s.calls = [] → (∀ t ∈ s.lastEvent, s.breaker.recoveryTimeout ≤ s.now - t) →
    (s.breaker.allowRequest s.now).1 = true

instance : DecidablePred Recovers := fun s =>
  inferInstanceAs (Decidable (s.calls = [] →
    (∀ t ∈ s.lastEvent, s.breaker.recoveryTimeout ≤ s.now - t) →
      (s.breaker.allowRequest s.now).1 = true))

/-- The action ends a call that is in flight, and neither `record_success` nor
`record_failure` runs: the local bucket is empty, the provider answers 429, 401 or 403, or
the agent reports a rate limit. -/
def EndsSilently (cfg : ClientConfig) (s : ClientState) : Action → Prop
  | .acquired i granted => s.calls[i]? = some .acquiring ∧ (granted = false ∨ cfg.maxRetries = 0)
  | .answered i r => (∃ n, s.calls[i]? = some (.sending n)) ∧
      ∃ e, send cfg r = .error e ∧ (e.cls = .rateLimitError ∨ e.cls = .authenticationError)
  | .agentDone i r => s.calls[i]? = some .running ∧ ∃ text, r = .rateLimited text
  | _ => False

/-- The last call in flight ends silently while the breaker is half-open and waits for its
probe. -/
def LosesProbe (cfg : ClientConfig) (s : ClientState) (a : Action) : Prop :=
  s.breaker.state = .halfOpen ∧ s.breaker.halfOpenProbeSent = true ∧
    s.calls.length = 1 ∧ EndsSilently cfg s a

/-! ## The invariant -/

/-- The breaker waits for its probe, and one call is left that may bring the answer. -/
def ProbeWithLast (s : ClientState) : Prop :=
  s.breaker.state = .halfOpen ∧ s.breaker.halfOpenProbeSent = true ∧ s.calls.length = 1

/-- What every run keeps about the breaker, the clock and the last event. -/
structure BreakerInv (cb : CircuitBreaker) (lastEvent : Option ℚ) (now : ℚ) : Prop where
  /-- A breaker that is not closed was opened by the last event. -/
  opened : cb.state ≠ .closed → lastEvent = some cb.openedAt
  /-- It has counted enough failures, so one more opens it again. -/
  counted : cb.state ≠ .closed → cb.failureThreshold ≤ cb.failureCount
  /-- It is half-open only once the timeout is over. -/
  late : cb.state = .halfOpen → cb.recoveryTimeout ≤ now - cb.openedAt

structure Inv (s : ClientState) : Prop where
  breaker : BreakerInv s.breaker s.lastEvent s.now
  /-- A probe that has been handed out is out with some call. -/
  probe : s.breaker.state = .halfOpen → s.breaker.halfOpenProbeSent = true → s.calls ≠ []

theorem inv_init (cfg : ClientConfig) (t : ℚ) : Inv (init cfg t) where
  breaker :=
    { opened := fun h => absurd rfl h
      counted := fun h => absurd rfl h
      late := fun h => by simp [init, CircuitBreaker.new] at h }
  probe := fun h => by simp [init, CircuitBreaker.new] at h

/-- The invariant says that the breaker recovers. -/
theorem Inv.recovers {s : ClientState} (h : Inv s) : Recovers s := by
  intro hcalls htime
  rcases allowRequest_cases s.breaker s.now with ⟨_, ha⟩ | ⟨_, _, ha⟩ | ⟨hs, hp, _⟩ | ⟨hs, ht, _⟩
  · rw [ha]
  · rw [ha]
  · exact absurd hcalls (h.probe hs hp)
  · -- an open breaker was opened by the last event, so its timeout is over
    have hlast := h.breaker.opened (by simp [hs])
    have hle := htime _ (Option.mem_def.mpr hlast)
    unfold secondsSinceOpen at ht
    linarith

/-! ## One step -/

theorem BreakerInv.tick {cb : CircuitBreaker} {e : Option ℚ} {now d : ℚ}
    (h : BreakerInv cb e now) (hd : 0 ≤ d) : BreakerInv cb e (now + d) where
  opened := h.opened
  counted := h.counted
  late := fun hs => by linarith [h.late hs]

theorem BreakerInv.readState {cb : CircuitBreaker} {e : Option ℚ} {now : ℚ}
    (h : BreakerInv cb e now) : BreakerInv (cb.readState now) e now where
  opened := fun hs => by
    rw [Ne, readState_state_closed] at hs
    rw [readState_openedAt]
    exact h.opened hs
  counted := fun hs => by
    rw [Ne, readState_state_closed] at hs
    rw [readState_failureThreshold, readState_failureCount]
    exact h.counted hs
  late := fun hs => by
    rw [readState_recoveryTimeout, readState_openedAt]
    unfold CircuitBreaker.readState at hs
    split at hs
    · rename_i ht
      exact ht.2
    · exact h.late hs

theorem BreakerInv.allowRequest {cb : CircuitBreaker} {e : Option ℚ} {now : ℚ}
    (h : BreakerInv cb e now) : BreakerInv (cb.allowRequest now).2 e now := by
  rcases allowRequest_cases cb now with ⟨_, ha⟩ | ⟨_, _, ha⟩ | ⟨_, _, ha⟩ | ⟨_, _, ha⟩
  · rw [ha]
    exact h
  · rw [ha]
    have hread := h.readState
    exact ⟨hread.opened, hread.counted, hread.late⟩
  · rw [ha]
    exact h
  · rw [ha]
    exact h

/-- After a recorded success the breaker is closed. -/
theorem BreakerInv.recordSuccess (cb : CircuitBreaker) (e : Option ℚ) (now : ℚ) :
    BreakerInv cb.recordSuccess e now where
  opened := fun h => absurd rfl h
  counted := fun h => absurd rfl h
  late := fun h => by simp [CircuitBreaker.recordSuccess] at h

/-- After a recorded failure the breaker is open since now or still closed. -/
theorem BreakerInv.recordFailure {cb : CircuitBreaker} {e : Option ℚ} {now : ℚ}
    (h : BreakerInv cb e now) : BreakerInv (cb.recordFailure now) (some now) now := by
  rcases recordFailure_cases cb now with ⟨hc, hr⟩ | ⟨_, hlt, hr⟩
  · have hcount : cb.failureThreshold ≤ cb.failureCount + 1 := by
      rcases hc with hs | hc
      · -- a half-open breaker has counted enough failures before
        have := h.counted (by simp [hs])
        omega
      · exact hc
    rw [hr]
    exact ⟨fun _ => rfl, fun _ => hcount, fun hs => by simp at hs⟩
  · -- only a closed breaker is below its threshold
    have hclosed : cb.state = .closed := by
      by_contra hne
      have := h.counted hne
      omega
    rw [hr]
    exact ⟨fun hn => absurd hclosed hn, fun hn => absurd hclosed hn,
      fun hn => by simp [hclosed] at hn⟩

theorem inv_gate {cfg : ClientConfig} {s : ClientState} (h : Inv s) (c : Call) :
    Inv (s.gate cfg c) := by
  have hb := h.breaker.allowRequest
  rcases allowRequest_cases s.breaker s.now with
    ⟨_, ha⟩ | ⟨hs, _, ha⟩ | ⟨hs, hp, ha⟩ | ⟨hs, _, ha⟩ <;> rw [ha] at hb <;> simp only [gate, ha]
  · exact ⟨hb, fun _ _ => by simp⟩
  · exact ⟨hb, fun _ _ => by simp⟩
  · exact ⟨hb, fun _ _ => h.probe hs hp⟩
  · exact ⟨hb, fun hh _ => by simp [hs] at hh⟩

/-- After a recorded success nothing is left of the probe, whatever becomes of the calls. -/
theorem inv_of_success {s s' : ClientState} (hb : s'.breaker = s.breaker.recordSuccess) :
    Inv s' := by
  constructor
  · rw [hb]
    exact BreakerInv.recordSuccess _ _ _
  · intro hs
    rw [hb] at hs
    cases hs

theorem inv_of_failure {s s' : ClientState} (h : Inv s)
    (hb : s'.breaker = s.breaker.recordFailure s.now) (he : s'.lastEvent = some s.now)
    (hnow : s'.now = s.now) : Inv s' := by
  have hinv := h.breaker.recordFailure
  constructor
  · rw [hb, he, hnow]
    exact hinv
  · intro hs hp
    rw [hb] at hs hp
    rcases recordFailure_cases s.breaker s.now with ⟨_, hr⟩ | ⟨hne, _, hr⟩
    · rw [hr] at hp
      cases hp
    · rw [hr] at hs
      exact absurd hs hne

/-- A call moves on to its next await. -/
theorem Inv.setCall {s : ClientState} (h : Inv s) (i : ℕ) (c : Call) : Inv (s.setCall i c) :=
  ⟨h.breaker, fun hs hp => by simpa using h.probe hs hp⟩

/-- A call ends with no event recorded and is not the last one with the probe out. -/
theorem Inv.endCall {s : ClientState} (h : Inv s) {i : ℕ} (hi : i < s.calls.length)
    (hlast : ¬ ProbeWithLast s) (e : Option APIError) : Inv (s.endCall i e) := by
  refine ⟨h.breaker, fun hs hp hnil => ?_⟩
  have hlen := congrArg List.length hnil
  rw [endCall_calls, List.length_eraseIdx_of_lt hi, List.length_nil] at hlen
  exact hlast ⟨hs, hp, by omega⟩

theorem lt_of_getElem? {s : ClientState} {i : ℕ} {c : Call} (h : s.calls[i]? = some c) :
    i < s.calls.length :=
  (List.getElem?_eq_some_iff.mp h).1

/-- The rate limiter gate. -/
theorem inv_afterAcquire {cfg : ClientConfig} {s : ClientState} (h : Inv s) {i : ℕ}
    (hi : i < s.calls.length) {granted : Bool}
    (hlast : granted = false ∨ cfg.maxRetries = 0 → ¬ ProbeWithLast s) :
    Inv (s.afterAcquire cfg i granted) := by
  unfold afterAcquire
  split
  · split
    · exact h.setCall i _
    · rename_i hm
      have hzero : cfg.maxRetries = 0 := by omega
      exact h.endCall hi (hlast (Or.inr hzero)) _
  · rename_i hg
    have hfalse : granted = false := by simpa using hg
    exact h.endCall hi (hlast (Or.inl hfalse)) _

/-- An answer of the wire: an event is recorded for every one but rate-limit and auth errors. -/
theorem inv_afterSend {cfg : ClientConfig} {s : ClientState} (h : Inv s) {i n : ℕ}
    (hi : i < s.calls.length) {r : WireResult}
    (hlast : ∀ e, send cfg r = .error e →
      e.cls = .rateLimitError ∨ e.cls = .authenticationError → ¬ ProbeWithLast s) :
    Inv (s.afterSend cfg i n r) := by
  unfold afterSend
  split
  · exact inv_of_success (s := s) rfl
  · rename_i e he
    split
    · rename_i hcls
      exact h.endCall hi (hlast e he hcls) _
    · -- the failure is recorded whether or not another attempt follows
      split
      · exact inv_of_failure h rfl rfl rfl
      · exact inv_of_failure h rfl rfl rfl

/-- The agent of an LLM call comes back. -/
theorem inv_afterAgent {cfg : ClientConfig} {s : ClientState} (h : Inv s) {i : ℕ}
    (hi : i < s.calls.length) {r : AgentResult}
    (hlast : ∀ text, r = .rateLimited text → ¬ ProbeWithLast s) :
    Inv (s.afterAgent cfg i r) := by
  cases r with
  | output => exact inv_of_success (s := s) rfl
  | rateLimited text => exact h.endCall hi (hlast text rfl) _
  | failed text => exact inv_of_failure h rfl rfl rfl

/-- Every step that does not lose the probe keeps the invariant. -/
theorem inv_step {cfg : ClientConfig} {s s' : ClientState} {a : Action} (h : Inv s)
    (ha : ¬ LosesProbe cfg s a) (hs : step cfg s a = some s') : Inv s' := by
  have hlast (hsilent : EndsSilently cfg s a) : ¬ ProbeWithLast s :=
    fun hp => ha ⟨hp.1, hp.2.1, hp.2.2, hsilent⟩
  cases a with
  | tick d =>
    simp only [step] at hs
    split at hs
    · rename_i hd
      cases hs
      exact ⟨h.breaker.tick hd, h.probe⟩
    · cases hs
  | request =>
    cases hs
    exact inv_gate h .acquiring
  | run =>
    cases hs
    exact inv_gate h .running
  | acquired i granted =>
    simp only [step] at hs
    split at hs
    · rename_i hi
      cases hs
      exact inv_afterAcquire h (lt_of_getElem? hi) fun hg => hlast ⟨hi, hg⟩
    · cases hs
  | answered i r =>
    simp only [step] at hs
    split at hs
    · rename_i n hi
      cases hs
      exact inv_afterSend h (lt_of_getElem? hi) fun e he hcls => hlast ⟨⟨n, hi⟩, e, he, hcls⟩
    · cases hs
  | woke i =>
    simp only [step] at hs
    split at hs
    · cases hs
      exact h.setCall i _
    · cases hs
  | agentDone i r =>
    simp only [step] at hs
    split at hs
    · rename_i hi
      cases hs
      exact inv_afterAgent h (lt_of_getElem? hi) fun text hr => hlast ⟨hi, text, hr⟩
    · cases hs

/-- A silent end takes the call out of the list and changes nothing the breaker sees. -/
theorem step_of_endsSilently {cfg : ClientConfig} {s s' : ClientState} {a : Action}
    (ha : EndsSilently cfg s a) (hs : step cfg s a = some s') :
    ∃ i e, i < s.calls.length ∧ s' = s.endCall i e := by
  cases a with
  | tick d => exact ha.elim
  | request => exact ha.elim
  | run => exact ha.elim
  | woke i => exact ha.elim
  | acquired i granted =>
    obtain ⟨hi, hg⟩ := ha
    simp only [step, hi, Option.some.injEq, afterAcquire] at hs
    split at hs
    · rename_i htrue
      have h0 : cfg.maxRetries = 0 := hg.resolve_left (by simp [htrue])
      rw [if_neg (by omega)] at hs
      exact ⟨i, _, lt_of_getElem? hi, hs.symm⟩
    · exact ⟨i, _, lt_of_getElem? hi, hs.symm⟩
  | answered i r =>
    obtain ⟨⟨n, hi⟩, e, he, hcls⟩ := ha
    simp only [step, hi, afterSend, he, if_pos hcls, Option.some.injEq] at hs
    exact ⟨i, _, lt_of_getElem? hi, hs.symm⟩
  | agentDone i r =>
    obtain ⟨hi, text, rfl⟩ := ha
    simp only [step, hi, afterAgent, Option.some.injEq] at hs
    exact ⟨i, _, lt_of_getElem? hi, hs.symm⟩

/-- Once the probe is lost the breaker is stuck: nobody is in flight, the timeout is over,
and the next request is still turned away. -/
theorem not_recovers_of_losesProbe {cfg : ClientConfig} {s s' : ClientState} {a : Action}
    (h : Inv s) (ha : LosesProbe cfg s a) (hs : step cfg s a = some s') : ¬ Recovers s' := by
  obtain ⟨hhalf, hprobe, hlen, hsilent⟩ := ha
  obtain ⟨i, e, hi, rfl⟩ := step_of_endsSilently hsilent hs
  intro hrec
  have hnil : (s.endCall i e).calls = [] := by
    rw [endCall_calls, ← List.length_eq_zero_iff, List.length_eraseIdx_of_lt hi, hlen]
  have hlast := h.breaker.opened (by simp [hhalf])
  have hallow : (s.breaker.allowRequest s.now).1 = true := by
    refine hrec hnil fun t ht => ?_
    rw [endCall_lastEvent, hlast, Option.mem_some_iff] at ht
    subst ht
    exact h.breaker.late hhalf
  -- but a half-open breaker with its probe out lets nobody through
  rcases allowRequest_cases s.breaker s.now with ⟨hc, _⟩ | ⟨_, hp, _⟩ | ⟨_, _, ha⟩ | ⟨ho, _⟩
  · simp [hhalf] at hc
  · simp [readState, hhalf, hprobe] at hp
  · simp [ha] at hallow
  · simp [hhalf] at ho

/-! ## Whole runs -/

/-- In a run of concurrent calls the breaker recovers in every state exactly when no step
of the run loses the probe. -/
theorem recovers_iff (cfg : ClientConfig) (t : ℚ) (as : List Action) :
    Run.AllStates (step cfg) Recovers (init cfg t) as ↔
      Run.AllSteps (step cfg) (fun s a => ¬ LosesProbe cfg s a) (init cfg t) as := by
  refine Run.allStates_iff_allSteps (fun s (hs : Inv s) => hs.recovers)
    (fun s a s' hs ha => inv_step hs ha) (fun s a s' hs ha => ?_) (inv_init cfg t) as
  exact not_recovers_of_losesProbe hs (not_not.mp ha)

/-! ## A run that gets stuck -/

/-- Two calls meet a provider that answers 500 until the breaker opens. A minute later the
token bucket turns the probe away, and another minute passes. -/
def stuckRun : List Action :=
  let down := .answered 0 (.response { statusCode := 500 })
  let failing := [.request, .acquired 0 true, down, .woke 0, down, .woke 0, down]
  failing ++ failing ++ [.tick 60, .request, .acquired 0 false, .tick 60]

/-- With the default configuration the breaker does not recover at the end of `stuckRun`. -/
theorem stuckRun_not_recovers :
    ∃ s ∈ Run.exec (step { provider := "hunter" }) (init { provider := "hunter" } 0) stuckRun,
      ¬ Recovers s := by
  decide +kernel

end ClientState
end LeadPulse
