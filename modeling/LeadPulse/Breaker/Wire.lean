import LeadPulse.Breaker.Client

/-!
# What an open breaker lets onto the wire

`BaseAPIClient.request` asks `allow_request` once, before the first attempt. Whatever the
breaker does after that, the call goes on: it sends once the token bucket has answered, and
again after each backoff. A `Wire` is a client together with an account of these sends:
those that start while the breaker is open and its timeout not over, and those made in the
half-open state before an outcome is recorded. `BlocksWire` allows none of the first kind and
one of the second.

`openWire` is a run in which it fails; `blocksWire_of_gatedSinceOpening` says when it holds. The
calls are told apart by the number of times the breaker had opened when they passed the gate.
-/

namespace LeadPulse

/-- A client, with what is counted on its wire. -/
structure Wire where
  client : ClientState
  /-- How often the breaker has opened. -/
  openings : ℕ := 0
  /-- For each call in flight, `openings` when `allow_request` let it through. -/
  marks : List ℕ := []
  /-- HTTP sends started while the breaker was open and its timeout not over. -/
  earlySends : ℕ := 0
  /-- HTTP sends started in the half-open state since an outcome was last recorded. -/
  probeSends : ℕ := 0
deriving DecidableEq, Repr

/-! ## The account of a step -/

/-- The call for which an HTTP send starts in the step. -/
def startsSend (cfg : ClientConfig) (s : ClientState) : Action → Option ℕ
  | .acquired i granted =>
    if s.calls[i]? = some .acquiring ∧ granted ∧ 1 ≤ cfg.maxRetries then some i else none
  | .woke i =>
    match s.calls[i]? with
    | some (.sleeping _) => some i
    | _ => none
  | _ => none

/-- `record_success` or `record_failure` runs in the step. -/
def recordsOutcome (cfg : ClientConfig) (s : ClientState) : Action → Bool
  | .answered i r =>
    match s.calls[i]?, send cfg r with
    | some (.sending _), .ok _ => true
    | some (.sending _), .error e => e.cls ≠ .rateLimitError ∧ e.cls ≠ .authenticationError
    | _, _ => false
  | .agentDone i r =>
    match s.calls[i]?, r with
    | some .running, .output => true
    | some .running, .failed _ => true
    | _, _ => false
  | _ => false

/-- The call that goes on in the step. -/
def Action.resumes : Action → Option ℕ
  | .tick _ | .request | .run => none
  | .acquired i _ | .answered i _ | .woke i | .agentDone i _ => some i

/-- The marks follow the calls: a new call gets the mark `m`, and a call that ends takes its mark
with it. -/
def moveMarks (before after : List Call) (m : ℕ) (marks : List ℕ) (a : Action) : List ℕ :=
  match a.resumes with
  | none => if before.length < after.length then marks ++ [m] else marks
  | some i => if after.length < before.length then marks.eraseIdx i else marks

/-- The breaker is open, and less than `recovery_timeout` has passed since it opened. -/
def CircuitBreaker.Blocking (cb : CircuitBreaker) (now : ℚ) : Prop :=
  cb.state = .opened ∧ cb.secondsSinceOpen now < cb.recoveryTimeout

instance (cb : CircuitBreaker) : DecidablePred cb.Blocking := fun now =>
  inferInstanceAs (Decidable (cb.state = .opened ∧ cb.secondsSinceOpen now < cb.recoveryTimeout))

namespace Wire

/-- The wire after a step that leads the client to `c`. -/
def follow (cfg : ClientConfig) (w : Wire) (a : Action) (c : ClientState) : Wire where
  client := c
  openings :=
    if recordsOutcome cfg w.client a ∧ c.breaker.state = .opened then w.openings + 1 else w.openings
  marks := moveMarks w.client.calls c.calls w.openings w.marks a
  earlySends :=
    if (startsSend cfg w.client a).isSome ∧ w.client.breaker.Blocking w.client.now then
      w.earlySends + 1
    else w.earlySends
  probeSends :=
    if recordsOutcome cfg w.client a then 0
    else if (startsSend cfg w.client a).isSome ∧ w.client.breaker.state = .halfOpen then
      w.probeSends + 1
    else w.probeSends

def step (cfg : ClientConfig) (w : Wire) (a : Action) : Option Wire :=
  (w.client.step cfg a).map (w.follow cfg a)

def init (cfg : ClientConfig) (t : ℚ) : Wire := { client := .init cfg t }

/-- No send has started behind an open breaker, and in the half-open state at most one before
an outcome was recorded. -/
def BlocksWire (w : Wire) : Prop := w.earlySends = 0 ∧ w.probeSends ≤ 1

/-- A call that was let through before the breaker last opened starts no send before the
breaker has closed again, or while it is open with its timeout over. -/
def GatedSinceOpening (cfg : ClientConfig) (w : Wire) (a : Action) : Prop :=
  ∀ i ∈ startsSend cfg w.client a, w.marks[i]? = some w.openings ∨
    w.client.breaker.state = .closed ∨
    (w.client.breaker.state = .opened ∧ ¬ w.client.breaker.Blocking w.client.now)

instance (cfg : ClientConfig) (w : Wire) : DecidablePred (GatedSinceOpening cfg w) := fun a =>
  inferInstanceAs (Decidable (∀ i ∈ startsSend cfg w.client a, w.marks[i]? = some w.openings ∨
    w.client.breaker.state = .closed ∨
    (w.client.breaker.state = .opened ∧ ¬ w.client.breaker.Blocking w.client.now)))

/-! ## The invariant -/

/-- In the half-open state the probe is the only call that was let through since the breaker
last opened. It has not been sent yet, or it waits for its answer. -/
structure OneProbe (calls : List Call) (marks : List ℕ) (openings probeSends : ℕ) : Prop where
  sends : probeSends ≤ 1
  unique : ∀ {j k : ℕ}, marks[j]? = some openings → marks[k]? = some openings → j = k
  probe : ∀ {k : ℕ} {c : Call}, calls[k]? = some c → marks[k]? = some openings →
    (c = .acquiring ∧ probeSends = 0) ∨ (∃ n, c = .sending n) ∨ c = .running

/-- What a run keeps about the breaker, the calls and their marks. -/
structure GateInv (cb : CircuitBreaker) (calls : List Call) (marks : List ℕ)
    (openings probeSends : ℕ) : Prop where
  length : marks.length = calls.length
  le : ∀ m ∈ marks, m ≤ openings
  /-- No call in flight was let through since the breaker has opened. -/
  opened : cb.state = .opened → openings ∉ marks
  halfOpen : cb.state = .halfOpen →
    cb.halfOpenProbeSent = true ∧ OneProbe calls marks openings probeSends
  /-- Sends are counted in the half-open state only. -/
  quiet : cb.state ≠ .halfOpen → probeSends = 0

/-- The place before `i` was taken out of the list. -/
def unshift (i j : ℕ) : ℕ := if j < i then j else j + 1

theorem unshift_injective {i j k : ℕ} (h : unshift i j = unshift i k) : j = k := by
  unfold unshift at h
  split at h <;> split at h <;> omega

theorem getElem?_eraseIdx_unshift {α : Type*} (l : List α) (i j : ℕ) :
    (l.eraseIdx i)[j]? = l[unshift i j]? := by
  unfold unshift
  rw [List.getElem?_eraseIdx]
  split <;> rfl

namespace GateInv

variable {cb : CircuitBreaker} {calls : List Call} {marks : List ℕ} {openings probeSends : ℕ}

theorem sends_le (h : GateInv cb calls marks openings probeSends) : probeSends ≤ 1 := by
  by_cases hs : cb.state = .halfOpen
  · exact (h.halfOpen hs).2.sends
  · rw [h.quiet hs]
    exact Nat.zero_le 1

/-- A call that ends leaves together with its mark. -/
theorem leave (h : GateInv cb calls marks openings probeSends) (i : ℕ) :
    GateInv cb (calls.eraseIdx i) (marks.eraseIdx i) openings probeSends where
  length := by
    rw [List.length_eraseIdx, List.length_eraseIdx, h.length]
  le := fun m hm => h.le m (List.mem_of_mem_eraseIdx hm)
  opened := fun hs hm => h.opened hs (List.mem_of_mem_eraseIdx hm)
  halfOpen := fun hs => by
    obtain ⟨hsent, hone⟩ := h.halfOpen hs
    refine ⟨hsent, hone.sends, fun {j k} hj hk => ?_, fun {k c} hc hk => ?_⟩
    · rw [getElem?_eraseIdx_unshift] at hj hk
      exact unshift_injective (hone.unique hj hk)
    · rw [getElem?_eraseIdx_unshift] at hc hk
      exact hone.probe hc hk
  quiet := h.quiet

theorem length_concat (h : GateInv cb calls marks openings probeSends) (c : Call) :
    (marks ++ [openings]).length = (calls ++ [c]).length := by
  rw [List.length_append, List.length_append, h.length]
  rfl

/-- A call that goes through now has the highest mark. -/
theorem le_concat (h : GateInv cb calls marks openings probeSends) :
    ∀ m ∈ marks ++ [openings], m ≤ openings := by
  intro m hm
  rcases List.mem_append.mp hm with hm | hm
  · exact h.le m hm
  · rw [List.mem_singleton.mp hm]

/-- With the breaker closed, another call goes through. -/
theorem enter (h : GateInv cb calls marks openings probeSends) (hs : cb.state = .closed)
    (c : Call) : GateInv cb (calls ++ [c]) (marks ++ [openings]) openings probeSends where
  length := h.length_concat c
  le := h.le_concat
  opened := fun ho => by simp [hs] at ho
  halfOpen := fun ho => by simp [hs] at ho
  quiet := h.quiet

/-- An open breaker becomes half-open, and the call that asks is the probe. -/
theorem enterProbe (h : GateInv cb calls marks openings probeSends) (hs : cb.state = .opened)
    {cb' : CircuitBreaker} (hs' : cb'.state = .halfOpen) (hsent : cb'.halfOpenProbeSent = true)
    {c : Call} (hc : c = .acquiring ∨ c = .running) :
    GateInv cb' (calls ++ [c]) (marks ++ [openings]) openings probeSends where
  length := h.length_concat c
  le := h.le_concat
  opened := fun ho => by simp [hs'] at ho
  halfOpen := fun _ => by
    have hzero : probeSends = 0 := h.quiet (by simp [hs])
    -- no earlier call has the mark of the probe
    have hlast : ∀ {j : ℕ}, (marks ++ [openings])[j]? = some openings → j = marks.length := by
      intro j hj
      rcases Nat.lt_trichotomy j marks.length with hlt | heq | hgt
      · rw [List.getElem?_append_left hlt] at hj
        exact absurd (List.mem_of_getElem? hj) (h.opened hs)
      · exact heq
      · rw [List.getElem?_eq_none (by simp; omega)] at hj
        cases hj
    refine ⟨hsent, by omega, fun {j k} hj hk => (hlast hj).trans (hlast hk).symm,
      fun {k d} hd hk => ?_⟩
    rw [hlast hk, h.length, List.getElem?_append_right le_rfl, Nat.sub_self] at hd
    obtain rfl : c = d := by simpa using hd
    rcases hc with rfl | rfl
    · exact Or.inl ⟨rfl, hzero⟩
    · exact Or.inr (Or.inr rfl)
  quiet := fun ho => absurd hs' ho

/-- After a success the breaker is closed, whatever becomes of the calls. -/
theorem success {cb' : CircuitBreaker} (hs : cb'.state = .closed)
    (hlength : marks.length = calls.length) (hle : ∀ m ∈ marks, m ≤ openings) :
    GateInv cb' calls marks openings 0 where
  length := hlength
  le := hle
  opened := fun ho => by simp [hs] at ho
  halfOpen := fun ho => by simp [hs] at ho
  quiet := fun _ => rfl

/-- A breaker that opens: all calls in flight are from before. -/
theorem reopen (h : GateInv cb calls marks openings probeSends) {cb' : CircuitBreaker}
    (ho : cb'.state = .opened) : GateInv cb' calls marks (openings + 1) 0 where
  length := h.length
  le := fun m hm => Nat.le_succ_of_le (h.le m hm)
  opened := fun _ hm => by
    have hle := h.le _ hm
    omega
  halfOpen := fun hh => by simp [ho] at hh
  quiet := fun _ => rfl

/-- After a failure the breaker is open, or it is as it was and not half-open. -/
theorem failure (h : GateInv cb calls marks openings probeSends) (now : ℚ) :
    GateInv (cb.recordFailure now) calls marks
      (if (cb.recordFailure now).state = .opened then openings + 1 else openings) 0 := by
  rcases cb.recordFailure_cases now with ⟨_, hr⟩ | ⟨hs, _, hr⟩
  · have ho : (cb.recordFailure now).state = .opened := by rw [hr]
    rw [if_pos ho]
    exact h.reopen ho
  · have hstate : (cb.recordFailure now).state = cb.state := by rw [hr]
    rw [hstate]
    split
    · rename_i ho
      exact h.reopen (hstate.trans ho)
    · rename_i ho
      exact ⟨h.length, h.le, fun hh => absurd (hstate ▸ hh) ho,
        fun hh => absurd (hstate ▸ hh) hs, fun _ => rfl⟩

/-- A call that is not in the half-open state moves to another await. -/
theorem set_of_ne (h : GateInv cb calls marks openings probeSends) (hs : cb.state ≠ .halfOpen)
    (i : ℕ) (c : Call) : GateInv cb (calls.set i c) marks openings probeSends where
  length := by rw [List.length_set, h.length]
  le := h.le
  opened := h.opened
  halfOpen := fun hh => absurd hh hs
  quiet := h.quiet

/-- The probe is sent. -/
theorem sendProbe (h : GateInv cb calls marks openings probeSends) (hs : cb.state = .halfOpen)
    {i n : ℕ} {c : Call} (hi : calls[i]? = some c) (hmark : marks[i]? = some openings)
    (hc : c = .acquiring ∨ ∃ m, c = .sleeping m) :
    GateInv cb (calls.set i (.sending n)) marks openings (probeSends + 1) where
  length := by rw [List.length_set, h.length]
  le := h.le
  opened := h.opened
  halfOpen := fun _ => by
    obtain ⟨hsent, hone⟩ := h.halfOpen hs
    -- the probe has not been sent before
    have hzero : probeSends = 0 := by
      rcases hone.probe hi hmark with ⟨_, hz⟩ | ⟨m, rfl⟩ | rfl
      · exact hz
      · rcases hc with hc | ⟨_, hc⟩ <;> cases hc
      · rcases hc with hc | ⟨_, hc⟩ <;> cases hc
    refine ⟨hsent, by omega, hone.unique, fun {k d} hd hk => ?_⟩
    obtain rfl := hone.unique hk hmark
    have hlt := (List.getElem?_eq_some_iff.mp hi).1
    rw [List.getElem?_set_self hlt] at hd
    exact Or.inr (Or.inl ⟨n, (Option.some.inj hd).symm⟩)
  quiet := fun hh => absurd hs hh

end GateInv

/-- The invariant of a wire. -/
structure Inv (w : Wire) : Prop where
  early : w.earlySends = 0
  gate : GateInv w.client.breaker w.client.calls w.marks w.openings w.probeSends

variable {cfg : ClientConfig} {w : Wire} {a : Action} {c : ClientState}

theorem Inv.blocksWire (h : Inv w) : w.BlocksWire := ⟨h.early, h.gate.sends_le⟩

theorem inv_init (cfg : ClientConfig) (t : ℚ) : Inv (init cfg t) where
  early := rfl
  gate := GateInv.success rfl rfl fun _ hm => nomatch hm

/-! ## One step -/

/-- A step in which no send starts and no outcome is recorded. -/
theorem follow_silent (hsend : startsSend cfg w.client a = none)
    (hrec : recordsOutcome cfg w.client a = false) :
    w.follow cfg a c =
      { w with client := c, marks := moveMarks w.client.calls c.calls w.openings w.marks a } := by
  simp [follow, hsend, hrec]

/-- A step that records an outcome. -/
theorem follow_outcome (hsend : startsSend cfg w.client a = none)
    (hrec : recordsOutcome cfg w.client a = true) :
    w.follow cfg a c =
      { w with client := c, marks := moveMarks w.client.calls c.calls w.openings w.marks a,
               openings := if c.breaker.state = .opened then w.openings + 1 else w.openings,
               probeSends := 0 } := by
  simp [follow, hsend, hrec]

theorem moveMarks_eraseIdx {calls : List Call} {m : ℕ} {marks : List ℕ} {i : ℕ} {d : Call}
    {a : Action} (ha : a.resumes = some i) (hi : calls[i]? = some d) :
    moveMarks calls (calls.eraseIdx i) m marks a = marks.eraseIdx i := by
  have hlt := (List.getElem?_eq_some_iff.mp hi).1
  have hlen : (calls.eraseIdx i).length < calls.length := by
    rw [List.length_eraseIdx_of_lt hlt]
    omega
  unfold moveMarks
  rw [ha]
  exact if_pos hlen

theorem moveMarks_set {calls : List Call} {m : ℕ} {marks : List ℕ} {i : ℕ} {d : Call}
    {a : Action} (ha : a.resumes = some i) :
    moveMarks calls (calls.set i d) m marks a = marks := by
  have hlen : ¬ (calls.set i d).length < calls.length := by
    rw [List.length_set]
    exact Nat.lt_irrefl _
  unfold moveMarks
  rw [ha]
  exact if_neg hlen

/-- The gate at the start of a call. -/
theorem Inv.gated (h : Inv w) {d : Call} (hd : d = .acquiring ∨ d = .running)
    (ha : a = .request ∨ a = .run) : Inv (w.follow cfg a (w.client.gate cfg d)) := by
  have hsilent : w.follow cfg a (w.client.gate cfg d) = _ :=
    follow_silent (by rcases ha with rfl | rfl <;> rfl) (by rcases ha with rfl | rfl <;> rfl)
  have hmarks : ∀ after : List Call, moveMarks w.client.calls after w.openings w.marks a =
      if w.client.calls.length < after.length then w.marks ++ [w.openings] else w.marks := by
    rcases ha with rfl | rfl <;> exact fun _ => rfl
  rw [hsilent, hmarks]
  have hgate := h.gate
  have hlonger : w.client.calls.length < (w.client.calls ++ [d]).length := by simp
  rcases w.client.breaker.allowRequest_cases w.client.now with
    ⟨hs, hallow⟩ | ⟨hs, hsent, hallow⟩ | ⟨_, _, hallow⟩ | ⟨_, _, hallow⟩ <;>
    simp only [ClientState.gate, hallow]
  · rw [if_pos hlonger]
    exact ⟨h.early, hgate.enter hs d⟩
  · -- the breaker was open: half-open with its probe out, it would have refused
    have hopen : w.client.breaker.state = .opened := by
      unfold CircuitBreaker.readState at hs hsent
      split at hs
      · rename_i ht
        exact ht.1
      · rename_i ht
        rw [if_neg ht, (hgate.halfOpen hs).1] at hsent
        cases hsent
    rw [if_pos hlonger]
    exact ⟨h.early, hgate.enterProbe hopen (by exact hs) rfl hd⟩
  · rw [if_neg (Nat.lt_irrefl _)]
    exact ⟨h.early, hgate⟩
  · rw [if_neg (Nat.lt_irrefl _)]
    exact ⟨h.early, hgate⟩

/-- A send starts, by a call that is allowed to. -/
theorem Inv.send (h : Inv w) {i n : ℕ} {d : Call} (hi : w.client.calls[i]? = some d)
    (hd : d = .acquiring ∨ ∃ m, d = .sleeping m)
    (ha : a.resumes = some i) (hsend : startsSend cfg w.client a = some i)
    (hrec : recordsOutcome cfg w.client a = false) (hgated : GatedSinceOpening cfg w a) :
    Inv (w.follow cfg a (w.client.setCall i (.sending n))) := by
  have hmarks : moveMarks w.client.calls (w.client.calls.set i (.sending n)) w.openings
      w.marks a = w.marks :=
    moveMarks_set ha
  have hgate := h.gate
  rcases hs : w.client.breaker.state with _ | _ | _
  · -- closed: nothing is counted
    have heq : w.follow cfg a (w.client.setCall i (.sending n)) =
        { w with client := w.client.setCall i (.sending n) } := by
      simp [follow, hsend, hrec, hmarks, hs, CircuitBreaker.Blocking]
    rw [heq]
    exact ⟨h.early, hgate.set_of_ne (by simp [hs]) i _⟩
  · -- open: no call in flight has been let through since, so the timeout is over
    have hlate : ¬ w.client.breaker.Blocking w.client.now := by
      rcases hgated i hsend with hmark | hclosed | ⟨_, hlate⟩
      · exact absurd (List.mem_of_getElem? hmark) (hgate.opened hs)
      · simp [hs] at hclosed
      · exact hlate
    have heq : w.follow cfg a (w.client.setCall i (.sending n)) =
        { w with client := w.client.setCall i (.sending n) } := by
      simp [follow, hsend, hrec, hmarks, hs, hlate]
    rw [heq]
    exact ⟨h.early, hgate.set_of_ne (by simp [hs]) i _⟩
  · -- half-open: the call is the probe
    have hmark : w.marks[i]? = some w.openings := by
      rcases hgated i hsend with hmark | hclosed | ⟨hopen, _⟩
      · exact hmark
      · simp [hs] at hclosed
      · simp [hs] at hopen
    have heq : w.follow cfg a (w.client.setCall i (.sending n)) =
        { w with client := w.client.setCall i (.sending n), probeSends := w.probeSends + 1 } := by
      simp [follow, hsend, hrec, hmarks, hs, CircuitBreaker.Blocking]
    rw [heq]
    exact ⟨h.early, hgate.sendProbe hs hi hmark hd⟩

/-- A call ends, and its mark goes with it. -/
theorem Inv.endCall (h : Inv w) {i : ℕ} {d : Call} (hi : w.client.calls[i]? = some d)
    (ha : a.resumes = some i) (c : ClientState) (hcalls : c.calls = w.client.calls)
    {openings probeSends : ℕ}
    (hgate : GateInv c.breaker (w.client.calls.eraseIdx i) (w.marks.eraseIdx i) openings
      probeSends) (e : Option APIError) :
    Inv { w with client := c.endCall i e
                 marks := moveMarks w.client.calls (c.endCall i e).calls w.openings w.marks a
                 openings := openings
                 probeSends := probeSends } := by
  constructor
  · exact h.early
  · show GateInv c.breaker (c.calls.eraseIdx i)
      (moveMarks w.client.calls (c.calls.eraseIdx i) w.openings w.marks a) openings probeSends
    rw [hcalls, moveMarks_eraseIdx ha hi]
    exact hgate

/-- A call ends and nothing is recorded. -/
theorem Inv.endSilently (h : Inv w) {i : ℕ} {d : Call} (hi : w.client.calls[i]? = some d)
    (ha : a.resumes = some i) (hsend : startsSend cfg w.client a = none)
    (hrec : recordsOutcome cfg w.client a = false) (e : Option APIError) :
    Inv (w.follow cfg a (w.client.endCall i e)) := by
  rw [follow_silent hsend hrec]
  exact h.endCall hi ha w.client rfl (h.gate.leave i) e

/-- A call ends with a success. -/
theorem Inv.endSuccess (h : Inv w) {i : ℕ} {d : Call} (hi : w.client.calls[i]? = some d)
    (ha : a.resumes = some i) (hsend : startsSend cfg w.client a = none)
    (hrec : recordsOutcome cfg w.client a = true) (e : Option APIError) :
    Inv (w.follow cfg a (w.client.onSuccess.endCall i e)) := by
  have hleave := h.gate.leave i
  have hclosed : ¬ (w.client.onSuccess.endCall i e).breaker.state = .opened := by
    intro ho
    cases ho
  rw [follow_outcome hsend hrec, if_neg hclosed]
  exact h.endCall hi ha w.client.onSuccess rfl (GateInv.success rfl hleave.length hleave.le) e

/-- A call ends with a failure. -/
theorem Inv.endFailure (h : Inv w) {i : ℕ} {d : Call} (hi : w.client.calls[i]? = some d)
    (ha : a.resumes = some i) (hsend : startsSend cfg w.client a = none)
    (hrec : recordsOutcome cfg w.client a = true) (e : Option APIError) :
    Inv (w.follow cfg a (w.client.onFailure.endCall i e)) := by
  rw [follow_outcome hsend hrec]
  exact h.endCall hi ha w.client.onFailure rfl ((h.gate.failure w.client.now).leave i) e

/-- An attempt fails, and the call goes to sleep before the next. -/
theorem Inv.sleep (h : Inv w) {i n : ℕ} {r : WireResult}
    (hrec : recordsOutcome cfg w.client (.answered i r) = true) :
    Inv (w.follow cfg (.answered i r) (w.client.onFailure.setCall i (.sleeping n))) := by
  have hne : (w.client.breaker.recordFailure w.client.now).state ≠ .halfOpen := by
    rcases w.client.breaker.recordFailure_cases w.client.now with ⟨_, hr⟩ | ⟨hs, _, hr⟩
    · rw [hr]
      intro hh
      cases hh
    · rw [hr]
      exact hs
  rw [follow_outcome rfl hrec]
  constructor
  · exact h.early
  · show GateInv _ _ (moveMarks w.client.calls (w.client.calls.set i (.sleeping n)) w.openings
      w.marks (.answered i r)) _ _
    rw [moveMarks_set rfl]
    exact (h.gate.failure w.client.now).set_of_ne hne i _

/-- The wire answers. -/
theorem Inv.answered (h : Inv w) {i n : ℕ} (hi : w.client.calls[i]? = some (.sending n))
    (r : WireResult) : Inv (w.follow cfg (.answered i r) (w.client.afterSend cfg i n r)) := by
  unfold ClientState.afterSend
  split
  · rename_i x hx
    exact h.endSuccess hi rfl rfl (by simp [recordsOutcome, hi, hx]) none
  · rename_i e he
    split
    · rename_i hcls
      refine h.endSilently hi rfl rfl ?_ (some e)
      rcases hcls with hcls | hcls <;> simp [recordsOutcome, hi, he, hcls]
    · rename_i hcls
      have hrec : recordsOutcome cfg w.client (.answered i r) = true := by
        simp only [not_or] at hcls
        simp [recordsOutcome, hi, he, hcls]
      split
      · exact h.sleep hrec
      · exact h.endFailure hi rfl rfl hrec (some e)

/-- The agent of an LLM call comes back. -/
theorem Inv.agentDone (h : Inv w) {i : ℕ} (hi : w.client.calls[i]? = some .running)
    (r : AgentResult) : Inv (w.follow cfg (.agentDone i r) (w.client.afterAgent cfg i r)) := by
  cases r with
  | output => exact h.endSuccess hi rfl rfl (by simp [recordsOutcome, hi]) none
  | rateLimited text => exact h.endSilently hi rfl rfl (by simp [recordsOutcome, hi]) _
  | failed text => exact h.endFailure hi rfl rfl (by simp [recordsOutcome, hi]) _

/-- The token bucket answers. -/
theorem Inv.acquired (h : Inv w) {i : ℕ} (hi : w.client.calls[i]? = some .acquiring)
    {granted : Bool} (hgated : GatedSinceOpening cfg w (.acquired i granted)) :
    Inv (w.follow cfg (.acquired i granted) (w.client.afterAcquire cfg i granted)) := by
  have hend (hno : ¬ (granted = true ∧ 1 ≤ cfg.maxRetries)) (e : Option APIError) :
      Inv (w.follow cfg (.acquired i granted) (w.client.endCall i e)) :=
    have hsend : startsSend cfg w.client (.acquired i granted) = none :=
      if_neg fun hc => hno hc.2
    h.endSilently hi rfl hsend rfl e
  unfold ClientState.afterAcquire
  split
  · rename_i hg
    split
    · rename_i hm
      exact h.send hi (Or.inl rfl) rfl (if_pos ⟨hi, hg, hm⟩) rfl hgated
    · rename_i hm
      exact hend (fun hc => hm hc.2) _
  · rename_i hg
    exact hend (fun hc => hg hc.1) _

/-- Every step whose send, if one starts, is by a call let through since the breaker last
opened. -/
theorem Inv.step (h : Inv w) {w' : Wire} (hgated : GatedSinceOpening cfg w a)
    (hs : w.step cfg a = some w') : Inv w' := by
  unfold Wire.step at hs
  rw [Option.map_eq_some_iff] at hs
  obtain ⟨c, hc, rfl⟩ := hs
  cases a with
  | tick d =>
    simp only [ClientState.step, Option.ite_none_right_eq_some] at hc
    obtain rfl := Option.some.inj hc.2
    rw [follow_silent rfl rfl]
    constructor
    · exact h.early
    · show GateInv _ _ (moveMarks w.client.calls w.client.calls w.openings w.marks (.tick d)) _ _
      rw [show moveMarks w.client.calls w.client.calls w.openings w.marks (.tick d) = w.marks from
        if_neg (Nat.lt_irrefl _)]
      exact h.gate
  | request =>
    obtain rfl := Option.some.inj hc
    exact h.gated (Or.inl rfl) (Or.inl rfl)
  | run =>
    obtain rfl := Option.some.inj hc
    exact h.gated (Or.inr rfl) (Or.inr rfl)
  | acquired i granted =>
    simp only [ClientState.step] at hc
    split at hc
    · rename_i hi
      obtain rfl := Option.some.inj hc
      exact h.acquired hi hgated
    · cases hc
  | answered i r =>
    simp only [ClientState.step] at hc
    split at hc
    · rename_i n hi
      obtain rfl := Option.some.inj hc
      exact h.answered hi r
    · cases hc
  | woke i =>
    simp only [ClientState.step] at hc
    split at hc
    · rename_i n hi
      obtain rfl := Option.some.inj hc
      have hsend : startsSend cfg w.client (.woke i) = some i := by simp [startsSend, hi]
      exact h.send hi (Or.inr ⟨n, rfl⟩) rfl hsend rfl hgated
    · cases hc
  | agentDone i r =>
    simp only [ClientState.step] at hc
    split at hc
    · rename_i hi
      obtain rfl := Option.some.inj hc
      exact h.agentDone hi r
    · cases hc

/-! ## Whole runs -/

/-- In a run in which every send is by a call that was let through since the breaker last
opened, or starts when the breaker does not forbid it, the breaker blocks the wire. -/
theorem blocksWire_of_gatedSinceOpening (cfg : ClientConfig) (t : ℚ) (as : List Action)
    (h : Run.AllSteps (step cfg) (GatedSinceOpening cfg) (init cfg t) as) :
    Run.AllStates (step cfg) BlocksWire (init cfg t) as :=
  (Run.AllStates.of_inv (fun _ _ _ hw hC hs => Inv.step hw hC hs) (inv_init cfg t) h).mono
    fun _ hw => hw.blocksWire

/-- Two requests to a provider that answers 500: the fifth answer opens the breaker, while the
second request has an attempt left. -/
def failingRun : List Action :=
  let down := .answered 0 (.response { statusCode := 500 })
  [.request, .acquired 0 true, down, .tick 1, .woke 0, down, .tick 2, .woke 0, down,
    .request, .acquired 0 true, down, .tick 1, .woke 0, down]

/-- The breaker opens, and the next request is made when its timeout is over. -/
theorem blocksWire_example :
    Run.AllStates (step { provider := "hunter" }) BlocksWire (init { provider := "hunter" } 0)
      (failingRun ++ [.tick 60, .woke 0, .request, .request, .acquired 1 true,
        .answered 1 (.response { statusCode := 200 })]) :=
  blocksWire_of_gatedSinceOpening _ 0 _
    (Run.AllSteps.of_check (fun _ _ h => of_decide_eq_true h) (by decide +kernel))

/-- The second request opens the breaker with its own failure, and sends again two seconds
later. -/
theorem openWire : ¬ Run.AllStates (step { provider := "hunter" }) BlocksWire
    (init { provider := "hunter" } 0) (failingRun ++ [.tick 2, .woke 0]) :=
  Run.not_allStates (q := fun w => w.earlySends ≠ 0)
    (fun w hw => by simpa using hw.1) (by decide +kernel)

end Wire
end LeadPulse
