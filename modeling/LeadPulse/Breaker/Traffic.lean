import LeadPulse.Breaker.RateLimiter
import LeadPulse.Breaker.Wire
import LeadPulse.Lib.Pool

/-!
# The traffic to a provider

Clients in several processes send to one provider and share its token bucket. A request reads the
clock and asks Redis for a token; Redis runs the script when the question arrives, and the client
goes on when it has the answer. `Traffic` has the clients of `Breaker.Client`, the bucket of
`Breaker.RateLimiter` and what is under way between them, and keeps the times of all HTTP sends.

A token is taken once for each request, but a request may send as often as it is allowed to retry,
and whenever its answer arrives. So the sends need not keep to the bound of the bucket,
`retries_exceed`. They keep to it exactly if a bucket that is asked again at each send would have
a token for it, `keepsRate_iff_chargedSend`. First attempts that start at the time their token was
taken for are such sends, `chargedSend_of_coveredSend`.
-/

namespace LeadPulse

open TokenBucket

/-- A call of the script on its way to Redis. -/
structure Question where
  client : ℕ
  stamp : ℚ
deriving DecidableEq, Repr

/-- The result of the script on its way back. -/
structure Answer where
  client : ℕ
  stamp : ℚ
  granted : Bool
deriving DecidableEq, Repr

structure Traffic where
  clients : List ClientState
  limiter : LimiterState
  questions : List Question := []
  answers : List Answer := []
  now : ℚ
  /-- When the HTTP sends have started. -/
  sends : List ℚ := []
deriving DecidableEq, Repr

inductive TrafficAction where
  /-- All clocks move on. -/
  | tick (d : ℚ)
  /-- Client `c` starts a request. -/
  | request (c : ℕ)
  /-- Question `j` reaches Redis. -/
  | script (j : ℕ)
  /-- Answer `j` reaches call `i` of its client. -/
  | acquired (j i : ℕ)
  /-- The wire answers call `i` of client `c`. -/
  | answered (c i : ℕ) (r : WireResult)
  /-- The backoff of call `i` of client `c` is over. -/
  | woke (c i : ℕ)
deriving DecidableEq, Repr

namespace Traffic

/-- `n` new clients at time `t`, and a bucket as it is found. -/
def init (cfg : ClientConfig) (n : ℕ) (stored : Option (Bucket × ℚ)) (t : ℚ) : Traffic where
  clients := List.replicate n (.init cfg t)
  limiter := { stored := stored, clock := t }
  now := t

/-- Client `c` takes a step. -/
def onClient (cfg : ClientConfig) (w : Traffic) (c : ℕ) (a : Action) : Option Traffic :=
  w.clients[c]?.bind fun s => (s.step cfg a).map fun s' =>
    { w with
      clients := w.clients.set c s'
      sends := if (startsSend cfg s a).isSome then w.sends ++ [w.now] else w.sends }

/-- The calls of client `c` in flight. -/
def callsOf (w : Traffic) (c : ℕ) : ℕ := (w.clients[c]?.map fun s => s.calls.length).getD 0

/-- `acquire` of a request that the breaker has let through: it reads the clock and sends the
script to Redis. -/
def ask (before after : Traffic) (c : ℕ) : Traffic :=
  if before.callsOf c < after.callsOf c then
    { after with questions := after.questions ++ [{ client := c, stamp := after.now }] }
  else after

/-- Redis runs the script for a question. -/
def answer (l : RateLimiter) (w : Traffic) (j : ℕ) (x : Question) : Traffic :=
  { w with
    limiter := w.limiter.acquire l x.stamp 1
    questions := w.questions.eraseIdx j
    answers := w.answers ++ [{ client := x.client, stamp := x.stamp,
                               granted := (l.script w.limiter.data x.stamp 1).1 }] }

def step (cfg : ClientConfig) (l : RateLimiter) (w : Traffic) : TrafficAction → Option Traffic
  | .tick d =>
    if 0 ≤ d then some { w with
      clients := w.clients.map fun s => { s with now := s.now + d }
      limiter := { w.limiter with clock := w.limiter.clock + d }
      now := w.now + d }
    else none
  | .request c => (w.onClient cfg c .request).map fun w' => w.ask w' c
  | .script j => w.questions[j]?.map (w.answer l j)
  | .acquired j i => w.answers[j]?.bind fun x =>
      onClient cfg { w with answers := w.answers.eraseIdx j } x.client (.acquired i x.granted)
  | .answered c i r => w.onClient cfg c (.answered i r)
  | .woke c i => w.onClient cfg c (.woke i)

/-- The HTTP sends in a time window of length `d` are at most the capacity of the bucket and the
refill of `d`. -/
def KeepsRate (l : RateLimiter) (w : Traffic) : Prop :=
  ∀ t d : ℚ, 0 ≤ d →
    (w.sends.countP (fun u => t ≤ u ∧ u ≤ t + d) : ℚ) ≤ l.capacity + l.refillRate * d

/-- An HTTP send starts in the step. -/
def sending (cfg : ClientConfig) (w : Traffic) : TrafficAction → Bool
  | .acquired j i => (w.answers[j]?.bind fun x => w.clients[x.client]?.bind fun s =>
      startsSend cfg s (.acquired i x.granted)).isSome
  | .woke c i => (w.clients[c]?.bind fun s => startsSend cfg s (.woke i)).isSome
  | _ => false

/-- The bucket that the limiter would hold if it had been asked for a token at each of the
sends, in their order. -/
def charged (l : RateLimiter) (sends : List ℚ) : Option Bucket :=
  sends.foldl (fun data t => some (l.script data t 1).2) none

/-- A send, first attempt or retry, would get a token of a bucket that all sends so far have been
charged to. -/
def ChargedSend (cfg : ClientConfig) (l : RateLimiter) (w : Traffic) (a : TrafficAction) : Prop :=
  w.sending cfg a = true → (l.script (charged l w.sends) w.now 1).1 = true

instance (cfg : ClientConfig) (l : RateLimiter) (w : Traffic) :
    DecidablePred (w.ChargedSend cfg l) := fun a =>
  inferInstanceAs (Decidable (w.sending cfg a = true →
    (l.script (charged l w.sends) w.now 1).1 = true))

/-- No retry is sent, a first attempt is sent at the time its token was taken for, and the
questions reach Redis in time. -/
def CoveredSend (l : RateLimiter) (w : Traffic) : TrafficAction → Prop
  | .script j => ∀ x ∈ w.questions[j]?, w.limiter.Timely l (.acquire x.stamp 1)
  | .acquired j _ => ∀ x ∈ w.answers[j]?, x.granted = true → x.stamp = w.now
  | .woke _ _ => False
  | _ => True

instance (l : RateLimiter) (w : Traffic) : DecidablePred (w.CoveredSend l)
  | .script j => inferInstanceAs (Decidable (∀ x ∈ w.questions[j]?,
      w.limiter.Timely l (.acquire x.stamp 1)))
  | .acquired j _ => inferInstanceAs (Decidable (∀ x ∈ w.answers[j]?,
      x.granted = true → x.stamp = w.now))
  | .woke _ _ => inferInstanceAs (Decidable False)
  | .tick _ | .request _ | .answered _ _ _ => inferInstanceAs (Decidable True)

/-! ## The bucket of the sends -/

variable {cfg : ClientConfig} {l : RateLimiter} {w w' : Traffic}

theorem charged_snoc (l : RateLimiter) (sends : List ℚ) (t : ℚ) :
    charged l (sends ++ [t]) = some (l.script (charged l sends) t 1).2 := by
  unfold charged
  rw [List.foldl_append]
  rfl

/-- The bucket of the sends so far keeps to the bound, and would not keep to a narrower one. -/
structure Metered (l : RateLimiter) (w : Traffic) : Prop where
  fresh : charged l w.sends = none → w.sends = []
  past : ∀ b ∈ charged l w.sends, b.last ≤ w.now
  paced : ∀ b ∈ charged l w.sends,
    Paced (l.capacity : ℚ) l.refillRate (w.sends.map fun t => (t, 1)) b.tokens b.last
  tight : ∀ b ∈ charged l w.sends,
    Tight (l.capacity : ℚ) l.refillRate (w.sends.map fun t => (t, 1)) b.tokens b.last

/-- The tokens that the bucket of the sends has now. -/
def ready (l : RateLimiter) (w : Traffic) : ℚ :=
  l.refilled (l.current (charged l w.sends) w.now) w.now

theorem Metered.ready_paced (h : Metered l w) (hrate : 0 ≤ l.refillRate) :
    Paced (l.capacity : ℚ) l.refillRate (w.sends.map fun t => (t, 1)) (w.ready l) w.now := by
  unfold ready
  cases hb : charged l w.sends with
  | none =>
    rw [h.fresh hb, l.refilled_current_none]
    exact Paced.start hrate (Nat.cast_nonneg _) le_rfl _
  | some b =>
    rw [l.current_some, l.refilled_of_le (h.past b hb)]
    exact (h.paced b hb).refill hrate (h.past b hb)

theorem Metered.ready_tight (h : Metered l w) :
    Tight (l.capacity : ℚ) l.refillRate (w.sends.map fun t => (t, 1)) (w.ready l) w.now := by
  unfold ready
  cases hb : charged l w.sends with
  | none =>
    rw [h.fresh hb, l.refilled_current_none]
    exact Tight.start _ _ _
  | some b =>
    rw [l.current_some, l.refilled_of_le (h.past b hb)]
    exact (h.tight b hb).refill (h.paced b hb) (h.past b hb)

theorem Metered.keepsRate (h : Metered l w) (hrate : 0 ≤ l.refillRate) : w.KeepsRate l := by
  intro t d hd
  have hwithin := (h.ready_paced hrate).within t d hd
  unfold takenWithin at hwithin
  rwa [taken_ones] at hwithin

theorem metered_init (cfg : ClientConfig) (n : ℕ) (stored : Option (Bucket × ℚ)) (t : ℚ) :
    Metered l (init cfg n stored t) where
  fresh := fun _ => rfl
  past := fun _ hb => nomatch hb
  paced := fun _ hb => nomatch hb
  tight := fun _ hb => nomatch hb

/-- Time may pass. -/
theorem Metered.idle (h : Metered l w) (hsends : w'.sends = w.sends) (hnow : w.now ≤ w'.now) :
    Metered l w' := by
  obtain ⟨hfresh, hpast, hpaced, htight⟩ := h
  constructor
  all_goals rw [hsends]
  · exact hfresh
  · exact fun b hb => (hpast b hb).trans hnow
  · exact hpaced
  · exact htight

/-- A send that the bucket has a token for. -/
theorem Metered.send (h : Metered l w) (hrate : 0 ≤ l.refillRate)
    (hgranted : (l.script (charged l w.sends) w.now 1).1 = true)
    (hsends : w'.sends = w.sends ++ [w.now]) (hnow : w'.now = w.now) : Metered l w' := by
  have hcharged : charged l w'.sends =
      some { tokens := w.ready l - (1 : ℕ), last := w.now } := by
    rw [hsends, charged_snoc]
    rcases l.script_cases (charged l w.sends) w.now 1 with ⟨_, hscript⟩ | ⟨_, hscript⟩
    · rw [hscript]
      rfl
    · rw [hscript] at hgranted
      cases hgranted
  have henough : ((1 : ℕ) : ℚ) ≤ w.ready l := by
    rcases l.script_cases (charged l w.sends) w.now 1 with ⟨hle, _⟩ | ⟨_, hscript⟩
    · exact hle
    · rw [hscript] at hgranted
      cases hgranted
  constructor
  · intro hnone
    rw [hcharged] at hnone
    cases hnone
  all_goals
    intro b hb
    obtain rfl := Option.some.inj (hcharged.symm.trans hb)
  · exact hnow.ge
  · rw [hsends, List.map_append]
    exact (h.ready_paced hrate).take hrate henough
  · rw [hsends, List.map_append]
    exact h.ready_tight.take 1

/-- A send that the bucket has no token for goes beyond the bound. -/
theorem Metered.overdrawn (h : Metered l w) (hrate : 0 ≤ l.refillRate)
    (hrefused : ¬ (l.script (charged l w.sends) w.now 1).1 = true)
    (hsends : w'.sends = w.sends ++ [w.now]) : ¬ w'.KeepsRate l := by
  have hempty : w.ready l < (1 : ℕ) := by
    rcases l.script_cases (charged l w.sends) w.now 1 with ⟨_, hscript⟩ | ⟨hlt, _⟩
    · rw [hscript] at hrefused
      exact absurd rfl hrefused
    · exact hlt
  obtain ⟨t, d, hd, hover⟩ := h.ready_tight.overdrawn (h.ready_paced hrate).past hempty
  have hlog : (w.sends.map fun u => (u, 1)) ++ [(w.now, 1)] =
      (w.sends ++ [w.now]).map fun u => (u, 1) := by
    rw [List.map_append]
    rfl
  unfold takenWithin at hover
  rw [hlog, taken_ones, ← hsends] at hover
  exact fun hkeeps => absurd (hkeeps t d hd) (not_le.mpr hover)

/-! ## One step -/

theorem onClient_eq_some {c : ℕ} {a : Action} (h : w.onClient cfg c a = some w') :
    ∃ s s', w.clients[c]? = some s ∧ w' = { w with
      clients := w.clients.set c s'
      sends := if (startsSend cfg s a).isSome then w.sends ++ [w.now] else w.sends } := by
  unfold onClient at h
  rw [Option.bind_eq_some_iff] at h
  obtain ⟨s, hs, h⟩ := h
  rw [Option.map_eq_some_iff] at h
  obtain ⟨s', _, rfl⟩ := h
  exact ⟨s, s', hs, rfl⟩

/-- A step of a client adds at most one send, and takes no time. -/
theorem onClient_sends {c : ℕ} {a : Action} (h : w.onClient cfg c a = some w') :
    w'.now = w.now ∧ w'.sends =
      if (w.clients[c]?.bind fun s => startsSend cfg s a).isSome then w.sends ++ [w.now]
      else w.sends := by
  obtain ⟨s, s', hc, rfl⟩ := onClient_eq_some h
  rw [hc]
  exact ⟨rfl, rfl⟩

theorem ask_sends (w w' : Traffic) (c : ℕ) : (w.ask w' c).sends = w'.sends := by
  unfold Traffic.ask
  split
  · rfl
  · rfl

theorem ask_now (w w' : Traffic) (c : ℕ) : (w.ask w' c).now = w'.now := by
  unfold Traffic.ask
  split
  · rfl
  · rfl

/-- What a step does to the account of the sends. -/
theorem step_sends {a : TrafficAction} (h : w.step cfg l a = some w') :
    w'.sends = (if w.sending cfg a then w.sends ++ [w.now] else w.sends) ∧ w.now ≤ w'.now ∧
      (w.sending cfg a = true → w'.now = w.now) := by
  cases a with
  | tick d =>
    simp only [Traffic.step, Option.ite_none_right_eq_some] at h
    obtain rfl := Option.some.inj h.2
    exact ⟨rfl, le_add_of_nonneg_right h.1, fun hsend => absurd hsend Bool.false_ne_true⟩
  | request c =>
    simp only [Traffic.step, Option.map_eq_some_iff] at h
    obtain ⟨w₁, hw₁, rfl⟩ := h
    obtain ⟨hnow, hsends⟩ := onClient_sends hw₁
    rw [ask_sends, ask_now]
    refine ⟨hsends.trans (if_neg ?_), hnow.ge, fun _ => hnow⟩
    cases w.clients[c]? with
    | none => exact Bool.false_ne_true
    | some s => exact Bool.false_ne_true
  | script j =>
    simp only [Traffic.step, Option.map_eq_some_iff] at h
    obtain ⟨x, _, rfl⟩ := h
    exact ⟨rfl, le_rfl, fun _ => rfl⟩
  | acquired j i =>
    simp only [Traffic.step, Option.bind_eq_some_iff] at h
    obtain ⟨x, hx, h⟩ := h
    obtain ⟨hnow, hsends⟩ := onClient_sends h
    have hsending : w.sending cfg (.acquired j i) = (w.clients[x.client]?.bind fun s =>
        startsSend cfg s (.acquired i x.granted)).isSome := by
      simp only [sending, hx, Option.bind_some]
    rw [hsending]
    exact ⟨hsends, hnow.ge, fun _ => hnow⟩
  | answered c i r =>
    obtain ⟨s, s', _, rfl⟩ := onClient_eq_some h
    exact ⟨rfl, le_rfl, fun _ => rfl⟩
  | woke c i =>
    obtain ⟨hnow, hsends⟩ := onClient_sends h
    exact ⟨hsends, hnow.ge, fun _ => hnow⟩

theorem Metered.step (hrate : 0 ≤ l.refillRate) {a : TrafficAction} (h : Metered l w)
    (hcharged : w.ChargedSend cfg l a) (hs : w.step cfg l a = some w') : Metered l w' := by
  obtain ⟨hsends, hle, hnow⟩ := step_sends hs
  by_cases hsend : w.sending cfg a = true
  · rw [if_pos hsend] at hsends
    exact h.send hrate (hcharged hsend) hsends (hnow hsend)
  · rw [if_neg hsend] at hsends
    exact h.idle hsends hle

theorem Metered.step_overdrawn (hrate : 0 ≤ l.refillRate) {a : TrafficAction} (h : Metered l w)
    (hcharged : ¬ w.ChargedSend cfg l a) (hs : w.step cfg l a = some w') : ¬ w'.KeepsRate l := by
  obtain ⟨hsend, hrefused⟩ := Classical.not_imp.mp hcharged
  obtain ⟨hsends, _, _⟩ := step_sends hs
  rw [if_pos hsend] at hsends
  exact h.overdrawn hrate hrefused hsends

theorem Metered.allStates_iff (hrate : 0 ≤ l.refillRate) (h : Metered l w)
    (as : List TrafficAction) :
    Run.AllStates (Traffic.step cfg l) (KeepsRate l) w as ↔
      Run.AllSteps (Traffic.step cfg l) (ChargedSend cfg l) w as :=
  Run.allStates_iff_allSteps (fun _ hw => hw.keepsRate hrate)
    (fun _ _ _ hw hC hs => hw.step hrate hC hs)
    (fun _ _ _ hw hC hs => hw.step_overdrawn hrate hC hs) h as

/-! ## Whole runs -/

/-- A request of client `c`, as its call `i`, that is answered at once. -/
def sendNow (c i : ℕ) : List TrafficAction := [.request c, .script 0, .acquired 0 i]

/-- What a run of covered sends keeps. Whatever the span of time, the sends in it and the tokens
on their way back to a client were all taken from the bucket in that span. -/
structure Inv (l : RateLimiter) (w : Traffic) : Prop where
  paced : w.limiter.PacedInv l
  covered : ∀ p : ℚ → Bool,
    w.sends.countP p + w.answers.countP (fun x => x.granted && p x.stamp) ≤
      taken p w.limiter.grants

theorem Inv.keepsRate (h : Inv l w) (hrate : 0 ≤ l.refillRate) : w.KeepsRate l := by
  intro t d hd
  have hcovered := h.covered fun u => t ≤ u ∧ u ≤ t + d
  have hle : w.sends.countP (fun u => t ≤ u ∧ u ≤ t + d) ≤
      takenWithin w.limiter.grants t (t + d) := by
    unfold takenWithin
    omega
  exact (Nat.cast_le.mpr hle).trans (h.paced.withinWindow hrate t d hd)

theorem inv_init (cfg : ClientConfig) (n : ℕ) {stored : Option (Bucket × ℚ)} {t : ℚ}
    (hrange : LimiterState.InRange l { stored := stored, clock := t }) :
    Inv l (init cfg n stored t) where
  paced := LimiterState.pacedInv_start hrange
  covered := fun _ => Nat.le_refl 0

/-- A step of a client in which it sends nothing. -/
theorem Inv.onClient (h : Inv l w) {c : ℕ} {a : Action} (hsend : ∀ s, startsSend cfg s a = none)
    (hs : w.onClient cfg c a = some w') : Inv l w' := by
  obtain ⟨s, s', _, rfl⟩ := onClient_eq_some hs
  constructor
  · exact h.paced
  · intro p
    rw [hsend s]
    exact h.covered p

theorem Inv.ask (h : Inv l w') (w : Traffic) (c : ℕ) : Inv l (w.ask w' c) := by
  unfold Traffic.ask
  split
  · exact ⟨h.paced, h.covered⟩
  · exact h

/-- The token Redis has granted is on its way. -/
theorem Inv.answer (h : Inv l w) (hrate : 0 ≤ l.refillRate) {j : ℕ} {x : Question}
    (htimely : w.limiter.Timely l (.acquire x.stamp 1)) : Inv l (w.answer l j x) := by
  constructor
  · exact h.paced.acquire hrate htimely
  · intro p
    have hold := h.covered p
    have hgrants : (w.limiter.acquire l x.stamp 1).grants =
        if (l.script w.limiter.data x.stamp 1).1 then w.limiter.grants ++ [(x.stamp, 1)]
        else w.limiter.grants := rfl
    show w.sends.countP p + (w.answers ++ [_]).countP _ ≤
      taken p (w.limiter.acquire l x.stamp 1).grants
    rw [hgrants, List.countP_append, List.countP_singleton]
    cases (l.script w.limiter.data x.stamp 1).1 with
    | false => simpa using hold
    | true =>
      rw [if_pos rfl, taken_append, taken_singleton]
      simp only [Bool.true_and]
      omega

/-- A client gets its answer, and sends if it may. -/
theorem Inv.acquired (h : Inv l w) {j i : ℕ} {x : Answer} (hj : w.answers[j]? = some x)
    (hnow : x.granted = true → x.stamp = w.now)
    (hs : Traffic.onClient cfg { w with answers := w.answers.eraseIdx j } x.client
      (.acquired i x.granted) = some w') : Inv l w' := by
  obtain ⟨s, s', _, rfl⟩ := onClient_eq_some hs
  constructor
  · exact h.paced
  · intro p
    have hold := h.covered p
    rw [Pool.countP_eraseIdx _ hj] at hold
    show (if _ then w.sends ++ [w.now] else w.sends).countP p +
      (w.answers.eraseIdx j).countP (fun x => x.granted && p x.stamp) ≤ taken p w.limiter.grants
    split
    · -- the answer was a token, taken for this moment
      rename_i hsend
      have hgranted : x.granted = true := by
        simp only [startsSend] at hsend
        split at hsend
        · rename_i hc
          exact hc.2.1
        · cases hsend
      rw [hgranted, Bool.true_and, hnow hgranted] at hold
      rw [List.countP_append, List.countP_singleton]
      omega
    · omega

theorem Inv.step (hrate : 0 ≤ l.refillRate) {a : TrafficAction} (h : Inv l w)
    (hcovered : w.CoveredSend l a) (hs : w.step cfg l a = some w') : Inv l w' := by
  cases a with
  | tick d =>
    simp only [Traffic.step, Option.ite_none_right_eq_some] at hs
    obtain rfl := Option.some.inj hs.2
    exact ⟨⟨h.paced.range, h.paced.fresh, h.paced.paced⟩, h.covered⟩
  | request c =>
    simp only [Traffic.step, Option.map_eq_some_iff] at hs
    obtain ⟨w₁, hw₁, rfl⟩ := hs
    exact (h.onClient (fun _ => rfl) hw₁).ask w c
  | script j =>
    simp only [Traffic.step, Option.map_eq_some_iff] at hs
    obtain ⟨x, hx, rfl⟩ := hs
    exact h.answer hrate (hcovered x hx)
  | acquired j i =>
    simp only [Traffic.step, Option.bind_eq_some_iff] at hs
    obtain ⟨x, hx, hs⟩ := hs
    exact h.acquired hx (hcovered x hx) hs
  | answered c i r => exact h.onClient (fun _ => rfl) hs
  | woke c i => exact hcovered.elim

/-- In a run of covered sends the traffic keeps to the rate. -/
theorem keepsRate_of_coveredSend (cfg : ClientConfig) (l : RateLimiter) (hrate : 0 ≤ l.refillRate)
    (n : ℕ) (stored : Option (Bucket × ℚ)) (t : ℚ)
    (hrange : LimiterState.InRange l { stored := stored, clock := t }) (as : List TrafficAction)
    (hcovered : Run.AllSteps (step cfg l) (CoveredSend l) (init cfg n stored t) as) :
    Run.AllStates (step cfg l) (KeepsRate l) (init cfg n stored t) as := by
  have hinv := Run.AllStates.of_inv (fun _ _ _ hw hC hs => Inv.step hrate hw hC hs)
    (inv_init cfg n hrange) hcovered
  exact hinv.mono fun w hw => hw.keepsRate hrate

/-- Sends that the tokens of their requests cover are sends that a charged bucket has a token
for. -/
theorem chargedSend_of_coveredSend (cfg : ClientConfig) (l : RateLimiter)
    (hrate : 0 ≤ l.refillRate) (n : ℕ) (stored : Option (Bucket × ℚ)) (t : ℚ)
    (hrange : LimiterState.InRange l { stored := stored, clock := t }) (as : List TrafficAction)
    (hcovered : Run.AllSteps (step cfg l) (CoveredSend l) (init cfg n stored t) as) :
    Run.AllSteps (step cfg l) (ChargedSend cfg l) (init cfg n stored t) as :=
  ((metered_init cfg n stored t).allStates_iff hrate as).mp
    (keepsRate_of_coveredSend cfg l hrate n stored t hrange as hcovered)

end Traffic
end LeadPulse
