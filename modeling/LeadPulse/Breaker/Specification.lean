import LeadPulse.Breaker.Recovery

/-!
# What the circuit breaker promises

The class `CircuitBreaker` (`services/api/base_client.py`) on its own: any sequence of calls of
its methods, at times that do not go back. What it should do is said by the calls alone, how many
failures there were since the last success and when the breaker last opened;
`circuitBreaker_spec` compares that with what its attributes make of it.

The histories are lists of calls with the latest first.
-/

namespace LeadPulse
namespace CircuitBreaker

open ClientState (BreakerInv)

/-- The methods, and the property `state`. -/
inductive Method where
  | allowRequest
  | recordSuccess
  | recordFailure
  | readState
deriving DecidableEq, Repr

/-- A call, with `time.monotonic()` then. -/
structure TimedCall where
  method : Method
  time : ℚ
deriving DecidableEq, Repr

/-- The call records an outcome. -/
def TimedCall.isOutcome (c : TimedCall) : Bool :=
  c.method = .recordSuccess || c.method = .recordFailure

def perform (cb : CircuitBreaker) (c : TimedCall) : CircuitBreaker :=
  match c.method with
  | .allowRequest => (cb.allowRequest c.time).2
  | .recordSuccess => cb.recordSuccess
  | .recordFailure => cb.recordFailure c.time
  | .readState => cb.readState c.time

/-- The call is an `allow_request` that returns `True`. -/
def allows (cb : CircuitBreaker) (c : TimedCall) : Bool :=
  c.method = .allowRequest && (cb.allowRequest c.time).1

/-- The breaker after the calls of a history. -/
def after (cb : CircuitBreaker) : List TimedCall → CircuitBreaker
  | [] => cb
  | c :: past => (cb.after past).perform c

/-! ## What the history says -/

/-- The failures recorded since the last success. -/
def failuresSinceSuccess : List TimedCall → ℕ
  | [] => 0
  | c :: past =>
    match c.method with
    | .recordSuccess => 0
    | .recordFailure => failuresSinceSuccess past + 1
    | _ => failuresSinceSuccess past

/-- When a failure was last recorded. -/
def lastFailure : List TimedCall → Option ℚ
  | [] => none
  | c :: past => if c.method = .recordFailure then some c.time else lastFailure past

/-- When the breaker last opened: it was not open before the call, and is after it. -/
def lastOpened (cb : CircuitBreaker) : List TimedCall → Option ℚ
  | [] => none
  | c :: past =>
    if (cb.after past).state ≠ .opened ∧ (cb.after (c :: past)).state = .opened then some c.time
    else cb.lastOpened past

/-- How many calls return `True`. -/
def countAllowed (cb : CircuitBreaker) : List TimedCall → ℕ
  | [] => 0
  | c :: past => cb.countAllowed past + ((cb.after past).allows c).toNat

/-- The clock does not go back. -/
def Clocked (past : List TimedCall) : Prop :=
  past.Pairwise fun later earlier => earlier.time ≤ later.time

/-- Nothing in the history is later than `now`. -/
def NotAfter (past : List TimedCall) (now : ℚ) : Prop := ∀ c ∈ past, c.time ≤ now

variable {cb : CircuitBreaker} {past : List TimedCall} {c : TimedCall}

theorem after_append (mid past : List TimedCall) :
    cb.after (mid ++ past) = (cb.after past).after mid := by
  induction mid with
  | nil => rfl
  | cons c mid ih => simp only [List.cons_append, after, ih]

theorem countAllowed_append (mid past : List TimedCall) :
    cb.countAllowed (mid ++ past) = cb.countAllowed past + (cb.after past).countAllowed mid := by
  induction mid with
  | nil => rfl
  | cons c mid ih =>
    simp only [List.cons_append, countAllowed, ih, after_append]
    omega

theorem exists_notAfter (h : Clocked past) : ∃ now, NotAfter past now := by
  cases past with
  | nil => exact ⟨0, fun _ hc => nomatch hc⟩
  | cons c past =>
    rw [Clocked, List.pairwise_cons] at h
    exact ⟨c.time, List.forall_mem_cons.mpr ⟨le_rfl, h.1⟩⟩

/-! ## Calls that record no outcome -/

/-- Such a call reads the state, and may take the probe. -/
theorem perform_quiet (cb : CircuitBreaker) (h : c.isOutcome = false) :
    ∃ probe, cb.perform c = { cb.readState c.time with halfOpenProbeSent := probe } := by
  unfold perform
  split
  · unfold allowRequest
    dsimp only
    split
    · exact ⟨_, rfl⟩
    · split
      · exact ⟨true, rfl⟩
      · exact ⟨_, rfl⟩
  · rename_i hm
    simp [TimedCall.isOutcome, hm] at h
  · rename_i hm
    simp [TimedCall.isOutcome, hm] at h
  · exact ⟨_, rfl⟩

/-- A breaker that is open after a read was open before. -/
theorem state_of_readState_opened {now : ℚ} (h : (cb.readState now).state = .opened) :
    cb.state = .opened := by
  unfold readState at h
  split at h
  · cases h
  · exact h

theorem readState_halfOpen {now : ℚ} (h : cb.state = .halfOpen) : cb.readState now = cb := by
  unfold readState
  rw [if_neg (by simp [h])]

/-! ## The attributes and the history -/

/-- The invariant: what the attributes say about the history. -/
structure Follows (threshold : ℕ) (timeout : ℚ) (past : List TimedCall) (cb : CircuitBreaker)
    (opened : Option ℚ) : Prop where
  threshold_eq : cb.failureThreshold = threshold
  timeout_eq : cb.recoveryTimeout = timeout
  count_eq : cb.failureCount = failuresSinceSuccess past
  below : cb.state = .closed → cb.failureCount < threshold
  breaker : ∀ now, NotAfter past now → BreakerInv cb (lastFailure past) now
  openedBy : cb.state ≠ .closed → ∃ t ∈ opened, t ≤ cb.openedAt

theorem lastFailure_le {t now : ℚ} (h : NotAfter past now) (ht : t ∈ lastFailure past) :
    t ≤ now := by
  induction past with
  | nil => cases ht
  | cons c past ih =>
    rw [NotAfter, List.forall_mem_cons] at h
    unfold lastFailure at ht
    split at ht
    · obtain rfl := Option.some.inj ht
      exact h.1
    · exact ih h.2 ht

section

variable {threshold : ℕ} {timeout : ℚ}

theorem follows_new (h : 1 ≤ threshold) :
    Follows threshold timeout [] (new threshold timeout) none where
  threshold_eq := rfl
  timeout_eq := rfl
  count_eq := rfl
  below := fun _ => h
  breaker := fun _ _ => ⟨fun hn => absurd rfl hn, fun hn => absurd rfl hn, fun hs => by cases hs⟩
  openedBy := fun hn => absurd rfl hn

theorem Follows.quiet {opened : Option ℚ} (h : Follows threshold timeout past cb opened)
    (hc : c.isOutcome = false) (hclock : NotAfter past c.time) :
    Follows threshold timeout (c :: past) (cb.perform c)
      (if cb.state ≠ .opened ∧ (cb.perform c).state = .opened then some c.time else opened) := by
  obtain ⟨hsuccess, hfailure⟩ : c.method ≠ .recordSuccess ∧ c.method ≠ .recordFailure := by
    simpa [TimedCall.isOutcome] using hc
  have hcount : failuresSinceSuccess (c :: past) = failuresSinceSuccess past := by
    rw [failuresSinceSuccess]
    split
    · rename_i hm
      exact absurd hm hsuccess
    · rename_i hm
      exact absurd hm hfailure
    · rfl
  have hlast : lastFailure (c :: past) = lastFailure past := if_neg hfailure
  obtain ⟨probe, hperform⟩ := cb.perform_quiet hc
  have hopened : ¬ (cb.state ≠ .opened ∧ (cb.perform c).state = .opened) := by
    rintro ⟨hne, hafter⟩
    rw [hperform] at hafter
    exact hne (state_of_readState_opened hafter)
  rw [if_neg hopened, hperform]
  constructor
  · exact (readState_failureThreshold cb _).trans h.threshold_eq
  · exact (readState_recoveryTimeout cb _).trans h.timeout_eq
  · rw [hcount]
    exact (readState_failureCount cb _).trans h.count_eq
  · intro hs
    have hbelow := h.below ((readState_state_closed cb _).mp hs)
    exact (readState_failureCount cb _).trans_lt hbelow
  · intro now hnow
    rw [NotAfter, List.forall_mem_cons] at hnow
    rw [hlast]
    have hread := (h.breaker c.time hclock).readState
    have hlate := (hread.tick (sub_nonneg.mpr hnow.1))
    rw [add_sub_cancel] at hlate
    exact ⟨hlate.opened, hlate.counted, hlate.late⟩
  · intro hs
    obtain ⟨t, ht, hle⟩ := h.openedBy fun hclosed => hs ((readState_state_closed cb _).mpr hclosed)
    exact ⟨t, ht, hle.trans_eq (readState_openedAt cb _).symm⟩

theorem Follows.success {opened : Option ℚ} (h : Follows threshold timeout past cb opened)
    (hthreshold : 1 ≤ threshold) (hc : c.method = .recordSuccess) :
    Follows threshold timeout (c :: past) (cb.perform c)
      (if cb.state ≠ .opened ∧ (cb.perform c).state = .opened then some c.time else opened) := by
  have hperform : cb.perform c = cb.recordSuccess := by
    unfold perform
    rw [hc]
  have hcount : failuresSinceSuccess (c :: past) = 0 := by
    unfold failuresSinceSuccess
    rw [hc]
  rw [hperform]
  constructor
  · exact h.threshold_eq
  · exact h.timeout_eq
  · exact hcount.symm
  · exact fun _ => hthreshold
  · exact fun now _ => BreakerInv.recordSuccess cb _ now
  · exact fun hs => absurd rfl hs

theorem Follows.failure {opened : Option ℚ} (h : Follows threshold timeout past cb opened)
    (hc : c.method = .recordFailure) (hclock : NotAfter past c.time) :
    Follows threshold timeout (c :: past) (cb.perform c)
      (if cb.state ≠ .opened ∧ (cb.perform c).state = .opened then some c.time else opened) := by
  have hperform : cb.perform c = cb.recordFailure c.time := by
    unfold perform
    rw [hc]
  have hcount : failuresSinceSuccess (c :: past) = cb.failureCount + 1 := by
    unfold failuresSinceSuccess
    rw [hc, h.count_eq]
  have hlast : lastFailure (c :: past) = some c.time := if_pos hc
  have hbreaker : ∀ now, NotAfter (c :: past) now →
      BreakerInv (cb.recordFailure c.time) (lastFailure (c :: past)) now := by
    intro now hnow
    rw [NotAfter, List.forall_mem_cons] at hnow
    have htick := (h.breaker c.time hclock).recordFailure.tick (sub_nonneg.mpr hnow.1)
    rw [hlast]
    rwa [add_sub_cancel] at htick
  rw [hperform]
  rcases recordFailure_cases cb c.time with ⟨_, hr⟩ | ⟨hne, hlt, hr⟩
  · -- the probe has failed, or the threshold is reached
    rw [hr] at hbreaker ⊢
    constructor
    · exact h.threshold_eq
    · exact h.timeout_eq
    · exact hcount.symm
    · exact fun hs => by cases hs
    · exact hbreaker
    · intro _
      split
      · exact ⟨c.time, rfl, le_rfl⟩
      · -- recorded while already open: the timeout starts again
        rename_i hopen
        have hopen : cb.state = .opened := by simpa using hopen
        have hnot : cb.state ≠ .closed := by simp [hopen]
        obtain ⟨t, ht, hle⟩ := h.openedBy hnot
        have hprev := lastFailure_le hclock ((h.breaker c.time hclock).opened hnot)
        exact ⟨t, ht, hle.trans hprev⟩
  · rw [hr] at hbreaker ⊢
    constructor
    · exact h.threshold_eq
    · exact h.timeout_eq
    · exact hcount.symm
    · intro _
      rw [← h.threshold_eq]
      exact hlt
    · exact hbreaker
    · intro hs
      have hcounted := (h.breaker c.time hclock).counted hs
      omega

/-- The attributes follow the calls. -/
theorem follows_after (h : 1 ≤ threshold) (hclock : Clocked past) :
    Follows threshold timeout past ((new threshold timeout).after past)
      ((new threshold timeout).lastOpened past) := by
  induction past with
  | nil => exact follows_new h
  | cons c past ih =>
    rw [Clocked, List.pairwise_cons] at hclock
    have hpast := ih hclock.2
    cases hc : c.method with
    | allowRequest => exact hpast.quiet (by simp [TimedCall.isOutcome, hc]) hclock.1
    | recordSuccess => exact hpast.success h hc
    | recordFailure => exact hpast.failure hc hclock.1
    | readState => exact hpast.quiet (by simp [TimedCall.isOutcome, hc]) hclock.1

/-- While the timeout of the last failure runs, a breaker that is not closed lets nobody through. -/
theorem Follows.rejects {opened : Option ℚ} {now : ℚ}
    (h : Follows threshold timeout past cb opened) (hnow : NotAfter past now)
    (hs : cb.state ≠ .closed) (ht : now - cb.openedAt < timeout) :
    (cb.allowRequest now).1 = false := by
  have hinv := h.breaker now hnow
  rw [← h.timeout_eq] at ht
  rcases allowRequest_cases cb now with ⟨hclosed, _⟩ | ⟨hhalf, _, _⟩ | ⟨_, _, ha⟩ | ⟨_, _, ha⟩
  · exact absurd hclosed hs
  · have hlate := hinv.readState.late hhalf
    rw [readState_recoveryTimeout, readState_openedAt] at hlate
    linarith
  · rw [ha]
  · rw [ha]

end

/-! ## The probe -/

/-- What may still be let through while half-open. -/
def probesLeft (cb : CircuitBreaker) : ℕ := if cb.halfOpenProbeSent then 0 else 1

/-- Without an outcome the breaker stays half-open, and its probe is sent once. -/
theorem halfOpen_perform (hs : cb.state = .halfOpen) (hc : c.isOutcome = false) :
    (cb.perform c).state = .halfOpen ∧
      (cb.allows c).toNat + (cb.perform c).probesLeft = cb.probesLeft := by
  have hread : cb.readState c.time = cb := readState_halfOpen hs
  unfold perform allows
  split
  · rename_i hm
    unfold allowRequest
    rw [hread]
    cases hp : cb.halfOpenProbeSent with
    | true => simp [hs, hp, hm, probesLeft]
    | false => simp [hs, hp, hm, probesLeft]
  · rename_i hm
    simp [TimedCall.isOutcome, hm] at hc
  · rename_i hm
    simp [TimedCall.isOutcome, hm] at hc
  · rename_i hm
    rw [hread]
    simp [hs, hm]

theorem halfOpen_after {mid : List TimedCall} (hs : cb.state = .halfOpen)
    (hmid : ∀ x ∈ mid, x.isOutcome = false) :
    (cb.after mid).state = .halfOpen ∧
      cb.countAllowed mid + (cb.after mid).probesLeft = cb.probesLeft := by
  induction mid with
  | nil => exact ⟨hs, Nat.zero_add _⟩
  | cons c mid ih =>
    rw [List.forall_mem_cons] at hmid
    obtain ⟨hstate, hcount⟩ := ih hmid.2
    obtain ⟨hstate', hcount'⟩ := halfOpen_perform hstate hmid.1
    refine ⟨hstate', ?_⟩
    show cb.countAllowed mid + ((cb.after mid).allows c).toNat +
      ((cb.after mid).perform c).probesLeft = cb.probesLeft
    omega

/-- The call with which the breaker turns half-open sends the probe, or leaves it to be sent. -/
theorem turnsHalfOpen (hs : cb.state ≠ .halfOpen) (hs' : (cb.perform c).state = .halfOpen) :
    (cb.allows c).toNat + (cb.perform c).probesLeft = 1 := by
  unfold perform at hs' ⊢
  unfold allows
  cases hm : c.method with
  | allowRequest =>
    rw [hm] at hs'
    rcases allowRequest_cases cb c.time with
      ⟨_, ha⟩ | ⟨_, _, ha⟩ | ⟨hhalf, _, _⟩ | ⟨_, _, ha⟩
    · rw [ha] at hs'
      exact absurd hs' hs
    · -- the call that reads the state half-open is let through itself
      simp [ha, probesLeft]
    · exact absurd hhalf hs
    · rw [ha] at hs'
      exact absurd hs' hs
  | recordSuccess =>
    rw [hm] at hs'
    cases hs'
  | recordFailure =>
    rw [hm] at hs'
    rcases recordFailure_cases cb c.time with ⟨_, hr⟩ | ⟨_, _, hr⟩
    · simp [hr] at hs'
    · simp only [hr] at hs'
      exact absurd hs' hs
  | readState =>
    rw [hm] at hs'
    dsimp only at hs' ⊢
    unfold readState at hs' ⊢
    split
    · simp [probesLeft]
    · rename_i hno
      rw [if_neg hno] at hs'
      exact absurd hs' hs

/-! ## The specification -/

/-- After any calls at times that do not go back:

* the breaker is closed exactly when fewer than `failure_threshold` failures were recorded since
  the last success;
* one that is not closed has opened, and lets no request through before `recovery_timeout` seconds
  have passed since then, and since the last failure, which may be one recorded while open;
* from the call with which it turned half-open on, and as long as no outcome is recorded, at most
  one request was let through. -/
theorem circuitBreaker_spec (threshold : ℕ) (timeout : ℚ) (hthreshold : 1 ≤ threshold)
    (past : List TimedCall) (hclock : Clocked past) :
    let start := new threshold timeout
    let cb := start.after past
    (cb.state = .closed ↔ failuresSinceSuccess past < threshold) ∧
    (cb.state ≠ .closed → ∃ opened ∈ start.lastOpened past, ∃ failed ∈ lastFailure past,
      ∀ now, NotAfter past now → now - opened < timeout ∨ now - failed < timeout →
        (cb.allowRequest now).1 = false) ∧
    ∀ (before : List TimedCall) (turn : TimedCall) (mid : List TimedCall),
      past = mid ++ turn :: before → (start.after before).state ≠ .halfOpen →
      (start.after (turn :: before)).state = .halfOpen → (∀ c ∈ mid, c.isOutcome = false) →
        (start.after before).countAllowed (mid ++ [turn]) ≤ 1 := by
  intro start cb
  have h : Follows threshold timeout past cb (start.lastOpened past) :=
    follows_after hthreshold hclock
  obtain ⟨now, hnow⟩ := exists_notAfter hclock
  refine ⟨?_, ?_, ?_⟩
  · rw [← h.count_eq]
    constructor
    · exact h.below
    · intro hlt
      by_contra hs
      have hcounted := (h.breaker now hnow).counted hs
      rw [h.threshold_eq] at hcounted
      omega
  · intro hs
    obtain ⟨opened, hopened, hle⟩ := h.openedBy hs
    have hfailed : cb.openedAt ∈ lastFailure past := (h.breaker now hnow).opened hs
    refine ⟨opened, hopened, cb.openedAt, hfailed, fun now hnow ht => h.rejects hnow hs ?_⟩
    rcases ht with ht | ht
    · linarith
    · exact ht
  · intro before turn mid _ hs hs' hmid
    have hturn := turnsHalfOpen hs hs'
    have hrest := (halfOpen_after hs' hmid).2
    have hone : (start.after before).countAllowed [turn] =
        ((start.after before).allows turn).toNat := Nat.zero_add _
    have hafter : (start.after before).after [turn] = (start.after before).perform turn := rfl
    rw [countAllowed_append, hone, hafter]
    change (((start.after before).perform turn).countAllowed mid) + _ =
      ((start.after before).perform turn).probesLeft at hrest
    omega

/-- A failure opens the breaker; a minute later one of two requests is let through. -/
theorem circuitBreaker_spec_probe :
    ((new 1 60).after [⟨.recordFailure, 0⟩]).countAllowed
      ([⟨.allowRequest, 61⟩] ++ [⟨.allowRequest, 60⟩]) ≤ 1 :=
  (circuitBreaker_spec 1 60 le_rfl
    [⟨.allowRequest, 61⟩, ⟨.allowRequest, 60⟩, ⟨.recordFailure, 0⟩]
    (by unfold Clocked; decide +kernel)).2.2 [⟨.recordFailure, 0⟩] ⟨.allowRequest, 60⟩
    [⟨.allowRequest, 61⟩] rfl (by decide +kernel) (by decide +kernel) (by decide +kernel)

end CircuitBreaker
end LeadPulse
