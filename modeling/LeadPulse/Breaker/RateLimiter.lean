import Mathlib.Algebra.Order.Ring.Rat
import LeadPulse.Lib.Run
import LeadPulse.Lib.TokenBucket

/-!
# The rate limiter of the API clients

`RateLimiter` of `services/api/base_client.py`: a token bucket for each provider that all
workers share in Redis. `acquire` runs a Lua script, which Redis executes as one step; `script`
is its body. The bucket is refilled only when it is asked for tokens, and the time it is refilled
for goes by the clock of the worker that asks: `now` is `time.time()` over there, in seconds.

Two facts about runs of `acquire` on one key:

* with timestamps that do not decrease, the tokens stay between 0 and the capacity and what is
  granted in a time window keeps to the bound of a token bucket, `withinWindow_of_timely`;
* the script writes the timestamp of its caller to `last` even when that is an earlier one, so
  the time since then is credited again, `credited_twice`. `creditedOnce_of_fromLatest` says
  when this does not happen.
-/

namespace LeadPulse

open TokenBucket

/-- The attributes of a `RateLimiter`. -/
structure RateLimiter where
  key : String
  capacity : ℕ
  refillRate : ℚ
deriving DecidableEq, Repr

/-- The hash that Redis holds for a limiter. -/
structure Bucket where
  tokens : ℚ
  last : ℚ
deriving DecidableEq, Repr

namespace RateLimiter

/-- `RateLimiter.__init__`. -/
def new (key : String) (capacity : ℕ) (refillRate : ℚ) : RateLimiter where
  key := "ratelimit:" ++ key
  capacity := capacity
  refillRate := refillRate

/-- The lifetime `EXPIRE` gives to the key, in seconds. -/
def keyLifetime : ℚ := 3600

/-- The bucket the script starts from: a full one where there is none. -/
def current (l : RateLimiter) (data : Option Bucket) (now : ℚ) : Bucket :=
  data.getD { tokens := l.capacity, last := now }

/-- The tokens of `b` after the refill. -/
def refilled (l : RateLimiter) (b : Bucket) (now : ℚ) : ℚ :=
  let elapsed := max 0 (now - b.last)
  min l.capacity (b.tokens + elapsed * l.refillRate)

/-- `_LUA_SCRIPT`: whether the tokens are granted, and the bucket that is stored either way. -/
def script (l : RateLimiter) (data : Option Bucket) (now : ℚ) (requested : ℕ) : Bool × Bucket :=
  let tokens := l.refilled (l.current data now) now
  if requested ≤ tokens then (true, { tokens := tokens - requested, last := now })
  else (false, { tokens := tokens, last := now })

/-! ## What the script does -/

@[simp] theorem current_some (l : RateLimiter) (b : Bucket) (now : ℚ) :
    l.current (some b) now = b := rfl

theorem refilled_current_none (l : RateLimiter) (now : ℚ) :
    l.refilled (l.current none now) now = l.capacity := by
  simp [refilled, current]

theorem refilled_of_le (l : RateLimiter) {b : Bucket} {now : ℚ} (h : b.last ≤ now) :
    l.refilled b now = min (l.capacity : ℚ) (b.tokens + (now - b.last) * l.refillRate) := by
  unfold refilled
  rw [max_eq_right (sub_nonneg.mpr h)]

theorem refilled_le_capacity (l : RateLimiter) (b : Bucket) (now : ℚ) :
    l.refilled b now ≤ l.capacity := min_le_left _ _

theorem refilled_nonneg (l : RateLimiter) (hrate : 0 ≤ l.refillRate) {b : Bucket}
    (h : 0 ≤ b.tokens) (now : ℚ) : 0 ≤ l.refilled b now := by
  have hgain : 0 ≤ max 0 (now - b.last) * l.refillRate := mul_nonneg (le_max_left _ _) hrate
  exact le_min (Nat.cast_nonneg _) (add_nonneg h hgain)

/-- The two ends of the script. -/
theorem script_cases (l : RateLimiter) (data : Option Bucket) (now : ℚ) (requested : ℕ) :
    ((requested : ℚ) ≤ l.refilled (l.current data now) now ∧
      l.script data now requested =
        (true, { tokens := l.refilled (l.current data now) now - requested, last := now })) ∨
    (l.refilled (l.current data now) now < requested ∧
      l.script data now requested =
        (false, { tokens := l.refilled (l.current data now) now, last := now })) := by
  by_cases h : (requested : ℚ) ≤ l.refilled (l.current data now) now
  · exact Or.inl ⟨h, if_pos h⟩
  · exact Or.inr ⟨lt_of_not_ge h, if_neg h⟩

theorem script_last (l : RateLimiter) (data : Option Bucket) (now : ℚ) (requested : ℕ) :
    (l.script data now requested).2.last = now := by
  rcases l.script_cases data now requested with ⟨_, h⟩ | ⟨_, h⟩
  · rw [h]
  · rw [h]

end RateLimiter

/-! ## Runs on one key -/

/-- A refill: the time it is for, and the tokens it has added. -/
structure Credit where
  start : ℚ
  stop : ℚ
  tokens : ℚ
deriving DecidableEq, Repr

/-- The times of two refills do not overlap. -/
def Credit.Apart (c c' : Credit) : Prop := c.stop ≤ c'.start ∨ c'.stop ≤ c.start

/-- The key of a limiter, and what has happened to it. -/
structure LimiterState where
  /-- The hash, and when it expires by the clock of Redis. -/
  stored : Option (Bucket × ℚ)
  /-- The clock of Redis. -/
  clock : ℚ
  /-- The first and the latest of the timestamps the script has been run with. -/
  seen : Option (ℚ × ℚ) := none
  /-- The tokens granted, with the timestamps. -/
  grants : List (ℚ × ℕ) := []
  credits : List Credit := []
deriving DecidableEq, Repr

inductive LimiterAction where
  /-- The clock of Redis moves on. -/
  | tick (d : ℚ)
  /-- Redis runs the script for a worker whose clock shows `now`. -/
  | acquire (now : ℚ) (requested : ℕ)
deriving DecidableEq, Repr

namespace LimiterState

open RateLimiter

/-- What `HMGET` finds: a key that has expired is gone. -/
def data (s : LimiterState) : Option Bucket :=
  (s.stored.filter fun x => s.clock < x.2).map Prod.fst

/-- `acquire`, with the script executed at this moment. -/
def acquire (l : RateLimiter) (s : LimiterState) (now : ℚ) (requested : ℕ) : LimiterState :=
  let b := l.current s.data now
  let result := l.script s.data now requested
  { s with
    stored := some (result.2, s.clock + keyLifetime)
    seen := some (match s.seen with
      | none => (now, now)
      | some (first, latest) => (first, max latest now))
    grants := if result.1 then s.grants ++ [(now, requested)] else s.grants
    credits := if b.last < now then
        s.credits ++ [{ start := b.last, stop := now, tokens := l.refilled b now - b.tokens }]
      else s.credits }

def step (l : RateLimiter) (s : LimiterState) : LimiterAction → Option LimiterState
  | .tick d => if 0 ≤ d then some { s with clock := s.clock + d } else none
  | .acquire now requested => some (s.acquire l now requested)

/-- The stored tokens are between 0 and the capacity. -/
def InRange (l : RateLimiter) (s : LimiterState) : Prop :=
  ∀ x ∈ s.stored, 0 ≤ x.1.tokens ∧ x.1.tokens ≤ l.capacity

/-- The tokens granted in a time window of length `d` are at most the capacity and the refill
of `d`. -/
def WithinWindow (l : RateLimiter) (s : LimiterState) : Prop :=
  ∀ t d : ℚ, 0 ≤ d → (takenWithin s.grants t (t + d) : ℚ) ≤ l.capacity + l.refillRate * d

/-- The timestamps do not decrease. A key that is gone has been idle for its lifetime, and in
that time an empty bucket would have been filled. -/
def Timely (l : RateLimiter) (s : LimiterState) : LimiterAction → Prop
  | .tick _ => True
  | .acquire now _ => ∀ span ∈ s.seen, span.2 ≤ now ∧
      (s.data = none → span.2 + keyLifetime ≤ now ∧ (l.capacity : ℚ) ≤ keyLifetime * l.refillRate)

instance (l : RateLimiter) (s : LimiterState) : DecidablePred (s.Timely l)
  | .tick _ => inferInstanceAs (Decidable True)
  | .acquire now _ => inferInstanceAs (Decidable (∀ span ∈ s.seen, span.2 ≤ now ∧
      (s.data = none → span.2 + keyLifetime ≤ now ∧
        (l.capacity : ℚ) ≤ keyLifetime * l.refillRate)))

/-! ## What one call does -/

variable {l : RateLimiter} {s : LimiterState}

theorem data_eq_some {b : Bucket} (h : s.data = some b) : ∃ e, s.stored = some (b, e) := by
  unfold data at h
  rw [Option.map_eq_some_iff] at h
  obtain ⟨x, hx, rfl⟩ := h
  exact ⟨x.2, (Option.filter_eq_some_iff.mp hx).1⟩

theorem acquire_stored (now : ℚ) (requested : ℕ) :
    (s.acquire l now requested).stored =
      some ((l.script s.data now requested).2, s.clock + keyLifetime) := rfl

theorem acquire_seen_none (h : s.seen = none) (now : ℚ) (requested : ℕ) :
    (s.acquire l now requested).seen = some (now, now) := by
  unfold acquire
  rw [h]

theorem acquire_seen_some {span : ℚ × ℚ} (h : s.seen = some span) (now : ℚ) (requested : ℕ) :
    (s.acquire l now requested).seen = some (span.1, max span.2 now) := by
  unfold acquire
  rw [h]

theorem acquire_seen_ne_none (now : ℚ) (requested : ℕ) :
    (s.acquire l now requested).seen ≠ none := by
  cases hseen : s.seen with
  | none =>
    rw [acquire_seen_none hseen]
    exact Option.some_ne_none _
  | some span =>
    rw [acquire_seen_some hseen]
    exact Option.some_ne_none _

/-- Once the refill is known to keep to the bound, so is the call. -/
theorem acquire_paced (hrate : 0 ≤ l.refillRate) {now : ℚ} (requested : ℕ)
    (h : Paced (l.capacity : ℚ) l.refillRate s.grants (l.refilled (l.current s.data now) now) now) :
    Paced (l.capacity : ℚ) l.refillRate (s.acquire l now requested).grants
      (l.script s.data now requested).2.tokens now := by
  rcases l.script_cases s.data now requested with ⟨hle, hscript⟩ | ⟨_, hscript⟩
  · have hgrants : (s.acquire l now requested).grants = s.grants ++ [(now, requested)] := by
      unfold acquire
      rw [hscript]
      rfl
    rw [hgrants, hscript]
    exact h.take hrate hle
  · have hgrants : (s.acquire l now requested).grants = s.grants := by
      unfold acquire
      rw [hscript]
      rfl
    rw [hgrants, hscript]
    exact h

/-! ## The window bound -/

/-- What runs with timely calls keep: the log and the stored bucket keep to the bound. -/
structure PacedInv (l : RateLimiter) (s : LimiterState) : Prop where
  range : s.InRange l
  /-- Nothing has been granted before the first call. -/
  fresh : s.seen = none → s.grants = []
  /-- From then on the bucket is the one left behind at the latest timestamp. -/
  paced : ∀ span ∈ s.seen, ∃ x, s.stored = some x ∧ x.1.last = span.2 ∧
    Paced (l.capacity : ℚ) l.refillRate s.grants x.1.tokens x.1.last

theorem PacedInv.withinWindow (h : PacedInv l s) (hrate : 0 ≤ l.refillRate) :
    s.WithinWindow l := by
  cases hseen : s.seen with
  | none =>
    have hempty := Paced.start hrate le_rfl (Nat.cast_nonneg (α := ℚ) l.capacity) 0
    unfold WithinWindow
    rw [h.fresh hseen]
    exact hempty.within
  | some span =>
    obtain ⟨x, _, _, hpaced⟩ := h.paced span hseen
    exact hpaced.within

/-- The refill of a timely call. -/
theorem PacedInv.refilled (h : PacedInv l s) (hrate : 0 ≤ l.refillRate) {now : ℚ} {requested : ℕ}
    (htimely : s.Timely l (.acquire now requested)) :
    Paced (l.capacity : ℚ) l.refillRate s.grants (l.refilled (l.current s.data now) now) now := by
  cases hseen : s.seen with
  | none =>
    -- the first call: the bucket is in range and nothing has been granted
    rw [h.fresh hseen]
    refine Paced.start hrate (l.refilled_nonneg hrate ?_ now) (l.refilled_le_capacity _ now) now
    cases hdata : s.data with
    | none => exact Nat.cast_nonneg _
    | some b =>
      obtain ⟨e, he⟩ := data_eq_some hdata
      exact (h.range (b, e) he).1
  | some span =>
    obtain ⟨x, hx, hlast, hpaced⟩ := h.paced span hseen
    obtain ⟨hnow, hgone⟩ := htimely span hseen
    rw [← hlast] at hnow hgone
    cases hdata : s.data with
    | none =>
      -- the key has expired, and the time since then would have filled the bucket
      obtain ⟨hidle, hfill⟩ := hgone hdata
      rw [l.refilled_current_none]
      refine hpaced.full hrate hnow (hfill.trans ?_)
      exact mul_le_mul_of_nonneg_right (by linarith) hrate
    | some b =>
      obtain ⟨e, he⟩ := data_eq_some hdata
      obtain rfl : x = (b, e) := Option.some.inj (hx.symm.trans he)
      rw [l.current_some, l.refilled_of_le hnow]
      exact hpaced.refill hrate hnow

/-- One call that is timely. -/
theorem PacedInv.acquire (h : PacedInv l s) (hrate : 0 ≤ l.refillRate) {now : ℚ} {requested : ℕ}
    (htimely : s.Timely l (.acquire now requested)) : PacedInv l (s.acquire l now requested) := by
  have hpaced := acquire_paced hrate requested (h.refilled hrate htimely)
  have hlast := l.script_last s.data now requested
  constructor
  · intro x hx
    obtain rfl := Option.some.inj (hx : some _ = some x)
    exact ⟨hpaced.nonneg, hpaced.le_cap⟩
  · intro hseen
    exact absurd hseen (acquire_seen_ne_none now requested)
  · intro span hspan
    have hlatest : span.2 = now := by
      cases hold : s.seen with
      | none =>
        rw [acquire_seen_none hold] at hspan
        rw [← Option.some.inj hspan]
      | some span' =>
        rw [acquire_seen_some hold] at hspan
        rw [← Option.some.inj hspan]
        exact max_eq_right (htimely span' hold).1
    refine ⟨_, acquire_stored now requested, ?_, ?_⟩
    · rw [hlast, hlatest]
    · rw [hlast]
      exact hpaced

theorem PacedInv.step (hrate : 0 ≤ l.refillRate) {s' : LimiterState} {a : LimiterAction}
    (h : PacedInv l s) (htimely : s.Timely l a) (hs : s.step l a = some s') : PacedInv l s' := by
  cases a with
  | tick d =>
    simp only [LimiterState.step, Option.ite_none_right_eq_some] at hs
    obtain rfl := Option.some.inj hs.2
    exact ⟨h.range, h.fresh, h.paced⟩
  | acquire now requested =>
    obtain rfl := Option.some.inj hs
    exact h.acquire hrate htimely

/-- Any bucket in range, of which nothing has been seen. -/
theorem pacedInv_start {stored : Option (Bucket × ℚ)} {clock : ℚ}
    (h : InRange l { stored := stored, clock := clock }) :
    PacedInv l { stored := stored, clock := clock } where
  range := h
  fresh := fun _ => rfl
  paced := fun _ hspan => nomatch hspan

/-- In a run of timely calls, from any bucket in range or from none, the stored tokens stay in
range and the grants of every time window keep to the bound. -/
theorem withinWindow_of_timely (l : RateLimiter) (hrate : 0 ≤ l.refillRate)
    (stored : Option (Bucket × ℚ)) (clock : ℚ)
    (hrange : InRange l { stored := stored, clock := clock }) (as : List LimiterAction)
    (htimely : Run.AllSteps (step l) (Timely l) { stored := stored, clock := clock } as) :
    Run.AllStates (step l) (fun s => s.InRange l ∧ s.WithinWindow l)
      { stored := stored, clock := clock } as := by
  have hinv : Run.AllStates (step l) (PacedInv l) { stored := stored, clock := clock } as :=
    Run.AllStates.of_inv (fun _ _ _ hs hC hs' => hs.step hrate hC hs') (pacedInv_start hrange)
      htimely
  exact hinv.mono fun s hs => ⟨hs.range, hs.withinWindow hrate⟩

/-- Two grants, a refusal, and a grant after the key has expired. -/
theorem withinWindow_example :
    Run.AllStates (step (.new "hunter" 30 (1 / 2)))
      (fun s => s.InRange (.new "hunter" 30 (1 / 2)) ∧ s.WithinWindow (.new "hunter" 30 (1 / 2)))
      { stored := some ({ tokens := 12, last := 90 }, 3690), clock := 100 }
      [.acquire 100 1, .tick 4, .acquire 104 18, .acquire 104 5, .tick 3600, .acquire 3704 30] :=
  withinWindow_of_timely _ (by decide +kernel) _ _
    (fun x hx => by
      obtain rfl := Option.some.inj hx
      constructor <;> decide +kernel)
    _ (Run.AllSteps.of_check (fun _ _ h => of_decide_eq_true h) (by decide +kernel))

/-! ## Clocks that disagree -/

/-- The tokens that all refills have added. -/
def credited (s : LimiterState) : ℚ := (s.credits.map Credit.tokens).sum

/-- The time from the first timestamp to the latest. -/
def spanSeen (s : LimiterState) : ℚ :=
  match s.seen with
  | none => 0
  | some (first, latest) => latest - first

/-- The refills add up to at most what the time seen brings, and no time is credited twice. -/
def CreditedOnce (l : RateLimiter) (s : LimiterState) : Prop :=
  s.credited ≤ l.refillRate * s.spanSeen ∧ s.credits.Pairwise Credit.Apart

/-- A call that credits time finds in `last` the latest timestamp, not an earlier one that a
worker with a slower clock has written there. -/
def FromLatest (s : LimiterState) : LimiterAction → Prop
  | .tick _ => True
  | .acquire now _ => ∀ b ∈ s.data, b.last < now → ∀ span ∈ s.seen, b.last = span.2

instance (s : LimiterState) : DecidablePred s.FromLatest
  | .tick _ => inferInstanceAs (Decidable True)
  | .acquire now _ => inferInstanceAs (Decidable (∀ b ∈ s.data, b.last < now →
      ∀ span ∈ s.seen, b.last = span.2))

/-- What runs keep in which refills start from the latest timestamp. -/
structure CreditInv (l : RateLimiter) (s : LimiterState) : Prop where
  /-- Before the first call there is no bucket. -/
  fresh : s.seen = none → s.stored = none ∧ s.credits = []
  /-- No refill is for a time that has not been seen. -/
  past : ∀ span ∈ s.seen, span.1 ≤ span.2 ∧ ∀ c ∈ s.credits, c.stop ≤ span.2
  once : CreditedOnce l s

/-- A call whose timestamp credits nothing. -/
theorem CreditInv.acquire_nothing (h : CreditInv l s) (hrate : 0 ≤ l.refillRate) {now : ℚ}
    {requested : ℕ} (hno : ¬ (l.current s.data now).last < now) :
    CreditInv l (s.acquire l now requested) := by
  have hcredits : (s.acquire l now requested).credits = s.credits := if_neg hno
  cases hseen : s.seen with
  | none =>
    obtain ⟨_, hempty⟩ := h.fresh hseen
    have hspan := acquire_seen_none (l := l) hseen now requested
    constructor
    · intro hnone
      exact absurd hnone (acquire_seen_ne_none now requested)
    · intro span hs
      rw [hspan] at hs
      obtain rfl := Option.some.inj hs
      rw [hcredits, hempty]
      exact ⟨le_rfl, fun c hc => nomatch hc⟩
    · unfold CreditedOnce credited spanSeen
      rw [hcredits, hempty, hspan]
      simp
  | some span =>
    obtain ⟨hle, hpast⟩ := h.past span hseen
    have hspan := acquire_seen_some (l := l) hseen now requested
    constructor
    · intro hnone
      exact absurd hnone (acquire_seen_ne_none now requested)
    · intro span' hs
      rw [hspan] at hs
      obtain rfl := Option.some.inj hs
      rw [hcredits]
      exact ⟨hle.trans (le_max_left _ _), fun c hc => (hpast c hc).trans (le_max_left _ _)⟩
    · obtain ⟨hsum, hapart⟩ := h.once
      unfold CreditedOnce credited spanSeen at *
      rw [hcredits, hspan]
      rw [hseen] at hsum
      refine ⟨hsum.trans (mul_le_mul_of_nonneg_left ?_ hrate), hapart⟩
      exact sub_le_sub_right (le_max_left _ _) _

/-- A refill from the latest timestamp on. -/
theorem CreditInv.acquire_refill (h : CreditInv l s) {b : Bucket} (hdata : s.data = some b)
    {now : ℚ} {requested : ℕ} (hlt : b.last < now) {span : ℚ × ℚ} (hseen : s.seen = some span)
    (hlatest : b.last = span.2) : CreditInv l (s.acquire l now requested) := by
  obtain ⟨hle, hpast⟩ := h.past span hseen
  obtain ⟨hsum, hapart⟩ := h.once
  have hspan : (s.acquire l now requested).seen = some (span.1, now) := by
    rw [acquire_seen_some hseen, ← hlatest, max_eq_right hlt.le]
  have hcredits : (s.acquire l now requested).credits =
      s.credits ++ [{ start := b.last, stop := now, tokens := l.refilled b now - b.tokens }] := by
    unfold acquire
    simp only [hdata, current_some, if_pos hlt]
  constructor
  · intro hnone
    exact absurd hnone (acquire_seen_ne_none now requested)
  · intro span' hs
    rw [hspan] at hs
    obtain rfl := Option.some.inj hs
    refine ⟨hle.trans (hlatest ▸ hlt.le), fun c hc => ?_⟩
    rw [hcredits] at hc
    rcases List.mem_append.mp hc with hc | hc
    · exact (hpast c hc).trans (hlatest ▸ hlt.le)
    · rw [List.mem_singleton.mp hc]
  · constructor
    · -- the refill adds at most what its time brings
      have hgain : l.refilled b now - b.tokens ≤ l.refillRate * (now - span.2) := by
        have hmin := min_le_right (l.capacity : ℚ) (b.tokens + (now - b.last) * l.refillRate)
        rw [l.refilled_of_le hlt.le, ← hlatest]
        linarith
      unfold credited spanSeen at *
      rw [hseen] at hsum
      rw [hcredits, hspan, List.map_append, List.sum_append, List.map_singleton,
        List.sum_singleton]
      show _ ≤ l.refillRate * (now - span.1)
      calc _ ≤ l.refillRate * (span.2 - span.1) + l.refillRate * (now - span.2) :=
            add_le_add hsum hgain
        _ = l.refillRate * (now - span.1) := by ring
    · rw [hcredits, List.pairwise_append]
      refine ⟨hapart, List.pairwise_singleton _ _, fun c hc c' hc' => ?_⟩
      rw [List.mem_singleton.mp hc']
      exact Or.inl ((hpast c hc).trans hlatest.ge)

theorem CreditInv.step (hrate : 0 ≤ l.refillRate) {s' : LimiterState} {a : LimiterAction}
    (h : CreditInv l s) (hlatest : s.FromLatest a) (hs : s.step l a = some s') :
    CreditInv l s' := by
  cases a with
  | tick d =>
    simp only [LimiterState.step, Option.ite_none_right_eq_some] at hs
    obtain rfl := Option.some.inj hs.2
    exact ⟨h.fresh, h.past, h.once⟩
  | acquire now requested =>
    obtain rfl := Option.some.inj hs
    cases hdata : s.data with
    | none =>
      -- a new bucket starts full at `now`
      refine h.acquire_nothing hrate ?_
      rw [hdata]
      exact lt_irrefl now
    | some b =>
      by_cases hlt : b.last < now
      · cases hseen : s.seen with
        | none =>
          obtain ⟨e, he⟩ := data_eq_some hdata
          rw [(h.fresh hseen).1] at he
          cases he
        | some span =>
          exact h.acquire_refill hdata hlt hseen (hlatest b hdata hlt span hseen)
      · refine h.acquire_nothing hrate ?_
        rw [hdata]
        exact hlt

/-- In a run in which each refill starts from the latest timestamp, whatever the order of the
timestamps is otherwise, no time is credited twice. -/
theorem creditedOnce_of_fromLatest (l : RateLimiter) (hrate : 0 ≤ l.refillRate) (clock : ℚ)
    (as : List LimiterAction)
    (hlatest : Run.AllSteps (step l) FromLatest { stored := none, clock := clock } as) :
    Run.AllStates (step l) (CreditedOnce l) { stored := none, clock := clock } as := by
  have h₀ : CreditInv l { stored := none, clock := clock } :=
    { fresh := fun _ => ⟨rfl, rfl⟩
      past := fun _ hspan => nomatch hspan
      once := ⟨by simp [credited, spanSeen], List.Pairwise.nil⟩ }
  have hinv := Run.AllStates.of_inv (fun _ _ _ hs hC hs' => hs.step hrate hC hs') h₀ hlatest
  exact hinv.mono fun s hs => hs.once

/-- A timestamp of the past that no later call starts from, and an expired key. -/
theorem creditedOnce_example :
    Run.AllStates (step (.new "hunter" 30 (1 / 2))) (CreditedOnce (.new "hunter" 30 (1 / 2)))
      { stored := none, clock := 100 }
      [.acquire 100 20, .tick 10, .acquire 110 1, .acquire 109 1, .tick 3600, .acquire 3710 1] :=
  creditedOnce_of_fromLatest _ (by decide +kernel) _ _
    (Run.AllSteps.of_check (fun _ _ h => of_decide_eq_true h) (by decide +kernel))

/-- Between two calls of one worker a second apart, another worker calls whose clock is a second
behind: the second is credited, and credited again. -/
theorem credited_twice : ¬ Run.AllStates (step (.new "hunter" 1 1))
    (CreditedOnce (.new "hunter" 1 1)) { stored := none, clock := 100 }
      [.acquire 100 1, .tick 1, .acquire 101 1, .acquire 100 1, .acquire 101 1] :=
  Run.not_allStates
    (q := fun s => (RateLimiter.new "hunter" 1 1).refillRate * s.spanSeen < s.credited)
    (fun s hs => decide_eq_false (not_lt.mpr hs.1)) (by decide +kernel)

end LimiterState
end LeadPulse
