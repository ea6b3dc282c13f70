import LeadPulse.Lib.Pool
import LeadPulse.Lib.Run
import LeadPulse.Models

/-!
# The keys of Google

`_verify_google_id_token` looks for the key that a token names in the key set of Google, which
`_get_google_jwks` fetches and keeps for an hour. A token whose key is not there may be signed with
a new one, so the kept set is made to expire and the search is done once more. Any number of
verifications may interleave at their requests to Google, whose answers may come late and out of
order, each overwriting the kept set. Google replaces its keys at any time.

That the kept set expires is done by setting its time to 0. `keysCurrent_iff` tells from when on
this works, and what it is good for.
-/

namespace LeadPulse

/-- What may stand under `kid`: `None`, or a text. -/
abbrev Kid := Option String

/-- A key of the set; one without a `kid` makes the search raise a `KeyError`. -/
structure SigningKey where
  kid : Option Kid
  material : ℕ
deriving DecidableEq, Repr

/-- A key set as `resp.json()`: `jwks.get("keys", [])`, and whether the object is truthy. -/
structure Jwks where
  keys : List SigningKey
  truthy : Bool
  truthy_of_keys : keys ≠ [] → truthy = true
deriving DecidableEq, Repr

/-- An object with the keys. -/
def Jwks.of (keys : List SigningKey) : Jwks := ⟨keys, true, fun _ => rfl⟩

inductive VerificationPhase where
  /-- The request to Google is under way, `now` being the time before it, -/
  | fetching (now : Time) (retried : Bool)
  /-- and Google has answered it. -/
  | answered (now : Time) (retried : Bool) (jwks : Jwks)
  /-- The key for `jose_jwt.decode`. -/
  | decoding (key : SigningKey)
  /-- `ValueError("No matching Google signing key found")`. -/
  | noMatch (endedAt : Time)
  /-- Another exception. -/
  | raised
deriving DecidableEq, Repr

/-- A call of `_verify_google_id_token`. -/
structure Verification where
  /-- The `kid` of `get_unverified_header`, unless it raises. -/
  header : Option Kid
  startedAt : Time
  phase : VerificationPhase
deriving DecidableEq, Repr

structure JwksWorld where
  clock : Time
  /-- The key set that Google serves. -/
  served : Jwks
  /-- All that Google has served, and when. -/
  log : List (Time × Jwks)
  cache : Option Jwks
  cacheTime : Time
  verifications : List Verification

inductive JwksEvent where
  | tick (d : ℕ)
  /-- Google replaces its keys. -/
  | rotate (jwks : Jwks)
  /-- A verification begins. -/
  | begin (header : Option Kid)
  /-- Google answers the request of a verification, by its position. -/
  | answer (i : ℕ)
  /-- A verification goes on with the answer. -/
  | resume (i : ℕ)
  /-- A request fails. -/
  | fail (i : ℕ)
deriving DecidableEq, Repr

/-- `next((k for k in keys if k["kid"] == kid), None)`, `none` being the `KeyError`. -/
def findKey (kid : Kid) : List SigningKey → Option (Option SigningKey)
  | [] => some none
  | key :: keys =>
    match key.kid with
    | none => none
    | some kid' => if kid' = kid then some (some key) else findKey kid keys

namespace JwksWorld

def init (t : Time) (served : Jwks) : JwksWorld where
  clock := t
  served := served
  log := [(t, served)]
  cache := none
  cacheTime := 0
  verifications := []

/-- The kept set, if `_get_google_jwks` returns it at `now`. -/
def cached (w : JwksWorld) (now : Time) : Option Jwks :=
  w.cache.filter fun jwks => jwks.truthy && now - w.cacheTime < hours 1

/-- The second search. -/
def retry (w : JwksWorld) (kid : Kid) (jwks : Jwks) : VerificationPhase :=
  match findKey kid jwks.keys with
  | none => .raised
  | some none => .noMatch w.clock
  | some (some key) => .decoding key

/-- From the first key set on, to the next request to Google or to the end. -/
def search (w : JwksWorld) (header : Option Kid) (jwks : Jwks) : JwksWorld × VerificationPhase :=
  match header with
  | none => (w, .raised)
  | some kid =>
    match findKey kid jwks.keys with
    | none => (w, .raised)
    | some (some key) => (w, .decoding key)
    | some none =>
      -- the key may be a new one
      let w := { w with cacheTime := 0 }
      match w.cached w.clock with
      | none => (w, .fetching w.clock true)
      | some jwks => (w, w.retry kid jwks)

/-- The verification at `i` is now in `phase`. -/
def setPhase (w : JwksWorld) (i : ℕ) (v : Verification) (phase : VerificationPhase) : JwksWorld :=
  { w with verifications := w.verifications.set i { v with phase := phase } }

/-- A call of `_get_google_jwks` ends with the answer of Google. -/
def store (w : JwksWorld) (now : Time) (jwks : Jwks) : JwksWorld :=
  { w with cache := some jwks, cacheTime := now }

/-- A verification has its key set. -/
def goOn (w : JwksWorld) (header : Option Kid) (retried : Bool) (jwks : Jwks) :
    JwksWorld × VerificationPhase :=
  if retried then (w, match header with | none => .raised | some kid => w.retry kid jwks)
  else w.search header jwks

def start (w : JwksWorld) (header : Option Kid) : JwksWorld × VerificationPhase :=
  match w.cached w.clock with
  | none => (w, .fetching w.clock false)
  | some jwks => w.search header jwks

def step (w : JwksWorld) : JwksEvent → Option JwksWorld
  | .tick d => some { w with clock := w.clock + d, log := (w.clock + d, w.served) :: w.log }
  | .rotate jwks => some { w with served := jwks, log := (w.clock, jwks) :: w.log }
  | .begin header =>
    let (w', phase) := w.start header
    some { w' with verifications := w'.verifications ++ [⟨header, w.clock, phase⟩] }
  | .answer i =>
    match w.verifications[i]? with
    | some v =>
      match v.phase with
      | .fetching now retried => some (w.setPhase i v (.answered now retried w.served))
      | _ => none
    | none => none
  | .resume i =>
    match w.verifications[i]? with
    | some v =>
      match v.phase with
      | .answered now retried jwks =>
        let (w', phase) := (w.store now jwks).goOn v.header retried jwks
        some (w'.setPhase i v phase)
      | _ => none
    | none => none
  | .fail i =>
    match w.verifications[i]? with
    | some v =>
      match v.phase with
      | .fetching _ _ | .answered _ _ _ => some (w.setPhase i v .raised)
      | _ => none
    | none => none

end JwksWorld

/-! ## What the outcomes say -/

/-- Google has served the set since `t`. -/
def ServedSince (log : List (Time × Jwks)) (t : Time) (jwks : Jwks) : Prop :=
  ∃ e ∈ log, t ≤ e.1 ∧ e.2 = jwks

/-- The key is the one that the token names, and Google served it less than an hour before the
verification began, or later. -/
def UsesCurrentKey (log : List (Time × Jwks)) (v : Verification) (key : SigningKey) : Prop :=
  key.kid = v.header ∧ ∃ e ∈ log, key ∈ e.2.keys ∧ v.startedAt < e.1 + hours 1

/-- At some time between the beginning and the end Google did not serve the key that the token
names. -/
def KeyMissing (log : List (Time × Jwks)) (v : Verification) (endedAt : Time) : Prop :=
  ∃ e ∈ log, v.startedAt ≤ e.1 ∧ e.1 ≤ endedAt ∧ ∀ key ∈ e.2.keys, key.kid ≠ v.header

namespace Verification

def KeysCurrent (log : List (Time × Jwks)) (v : Verification) : Prop :=
  match v.phase with
  | .decoding key => UsesCurrentKey log v key
  | .noMatch endedAt => KeyMissing log v endedAt
  | _ => True

/-- The invariant of a verification. -/
def Tracked (log : List (Time × Jwks)) (clock : Time) (v : Verification) : Prop :=
  match v.phase with
  | .fetching now _ => v.startedAt ≤ now ∧ now ≤ clock
  | .answered now _ jwks => v.startedAt ≤ now ∧ ServedSince log now jwks
  | .decoding key => UsesCurrentKey log v key
  | .noMatch endedAt => KeyMissing log v endedAt
  | .raised => True

variable {log log' : List (Time × Jwks)} {clock clock' : Time} {v : Verification}

theorem Tracked.keysCurrent (h : v.Tracked log clock) : v.KeysCurrent log := by
  unfold KeysCurrent
  unfold Tracked at h
  cases hphase : v.phase with
  | decoding | noMatch =>
    rw [hphase] at h
    exact h
  | fetching | answered | raised => trivial

/-- What has been served stays so. -/
theorem Tracked.mono (h : v.Tracked log clock) (hlog : log ⊆ log') (hclock : clock ≤ clock') :
    v.Tracked log' clock' := by
  unfold Tracked at h ⊢
  cases hphase : v.phase with
  | fetching now =>
    rw [hphase] at h
    exact ⟨h.1, Int.le_trans h.2 hclock⟩
  | answered now retried jwks =>
    rw [hphase] at h
    obtain ⟨hstart, e, he, hserved⟩ := h
    exact ⟨hstart, e, hlog he, hserved⟩
  | decoding key =>
    rw [hphase] at h
    obtain ⟨hkid, e, he, hkey⟩ := h
    exact ⟨hkid, e, hlog he, hkey⟩
  | noMatch endedAt =>
    rw [hphase] at h
    obtain ⟨e, he, hmissing⟩ := h
    exact ⟨e, hlog he, hmissing⟩
  | raised => trivial

end Verification

/-! ## Searching -/

section

variable {kid : Kid} {keys : List SigningKey} {key : SigningKey}

theorem findKey_some (h : findKey kid keys = some (some key)) :
    key ∈ keys ∧ key.kid = some kid := by
  induction keys with
  | nil => cases h
  | cons k keys ih =>
    rw [findKey] at h
    cases hk : k.kid with
    | none =>
      rw [hk] at h
      cases h
    | some kid' =>
      simp only [hk] at h
      by_cases heq : kid' = kid
      · rw [if_pos heq] at h
        obtain rfl := Option.some.inj (Option.some.inj h)
        exact ⟨List.mem_cons_self, hk.trans (congrArg some heq)⟩
      · rw [if_neg heq] at h
        exact ⟨List.mem_cons_of_mem _ (ih h).1, (ih h).2⟩

theorem findKey_none (h : findKey kid keys = some none) : ∀ key ∈ keys, key.kid ≠ some kid := by
  induction keys with
  | nil =>
    intro key hkey
    cases hkey
  | cons k keys ih =>
    rw [findKey] at h
    cases hk : k.kid with
    | none =>
      rw [hk] at h
      cases h
    | some kid' =>
      simp only [hk] at h
      by_cases heq : kid' = kid
      · rw [if_pos heq] at h
        cases h
      · rw [if_neg heq] at h
        refine List.forall_mem_cons.mpr ⟨?_, ih h⟩
        rw [hk]
        exact fun hsome => heq (Option.some.inj hsome)

end

/-! ## The invariant -/

namespace JwksWorld

/-- The invariant of the log, the kept set and the verifications. -/
structure Inv (w : JwksWorld) : Prop where
  started : hours 1 ≤ w.clock
  served : (w.clock, w.served) ∈ w.log
  log_le : ∀ e ∈ w.log, 0 ≤ e.1 ∧ e.1 ≤ w.clock
  cached : ∀ jwks ∈ w.cache, ServedSince w.log w.cacheTime jwks
  tracked : Pool.Each (Verification.Tracked w.log w.clock) w.verifications

variable {w w' : JwksWorld} {header : Option Kid} {jwks : Jwks} {startedAt : Time}

theorem inv_init {t : Time} (h : hours 1 ≤ t) (served : Jwks) : (init t served).Inv where
  started := h
  served := List.mem_singleton_self _
  log_le := by
    intro e he
    obtain rfl := List.mem_singleton.mp he
    refine ⟨?_, Int.le_refl _⟩
    show (0 : Time) ≤ t
    unfold hours Time at *
    omega
  cached := fun _ h => nomatch h
  tracked := .nil

/-- A kept set that is returned was served less than an hour ago. -/
theorem Inv.served_of_cached (h : w.Inv) (hc : w.cached w.clock = some jwks) :
    ∃ e ∈ w.log, w.clock < e.1 + hours 1 ∧ e.2 = jwks := by
  obtain ⟨hmem, hcond⟩ := Option.filter_eq_some_iff.mp hc
  rw [Bool.and_eq_true, decide_eq_true_eq] at hcond
  obtain ⟨e, he, htime, hjwks⟩ := h.cached jwks hmem
  refine ⟨e, he, ?_, hjwks⟩
  have hlt := hcond.2
  unfold hours Time at *
  omega

/-- The kept set that has expired stays so: more than an hour has passed since 1970. -/
theorem Inv.cached_expired (h : w.Inv) : { w with cacheTime := 0 }.cached w.clock = none := by
  unfold JwksWorld.cached
  have hlt : ¬ w.clock - 0 < hours 1 := by
    have hstarted := h.started
    unfold hours Time at *
    omega
  rw [Option.filter_eq_none_iff]
  intro jwks _
  simp only [hlt, decide_false, Bool.and_false]
  exact Bool.false_ne_true

/-- What a verification does between two requests to Google: it may touch the kept set, and it
comes to a phase of which the invariant holds. -/
structure GoesOn (w : JwksWorld) (header : Option Kid) (startedAt : Time)
    (r : JwksWorld × VerificationPhase) : Prop where
  inv : r.1.Inv
  log : r.1.log = w.log
  clock : r.1.clock = w.clock
  verifications : r.1.verifications = w.verifications
  tracked : Verification.Tracked w.log w.clock ⟨header, startedAt, r.2⟩

/-- The search in a set that was served in time. -/
theorem Inv.search (h : w.Inv) (hjwks : ∃ e ∈ w.log, startedAt < e.1 + hours 1 ∧ e.2 = jwks)
    (hstart : startedAt ≤ w.clock) : w.GoesOn header startedAt (w.search header jwks) := by
  unfold JwksWorld.search
  cases header with
  | none => exact ⟨h, rfl, rfl, rfl, trivial⟩
  | some kid =>
    dsimp only
    cases hfind : findKey kid jwks.keys with
    | none => exact ⟨h, rfl, rfl, rfl, trivial⟩
    | some found =>
      cases found with
      | some key =>
        obtain ⟨hmem, hkid⟩ := findKey_some hfind
        obtain ⟨e, he, htime, rfl⟩ := hjwks
        exact ⟨h, rfl, rfl, rfl, hkid, e, he, hmem, htime⟩
      | none =>
        dsimp only
        rw [h.cached_expired]
        refine ⟨?_, rfl, rfl, rfl, hstart, Int.le_refl _⟩
        refine ⟨h.started, h.served, h.log_le, fun jwks hcache => ?_, h.tracked⟩
        obtain ⟨e, he, -, hjwks⟩ := h.cached jwks hcache
        exact ⟨e, he, (h.log_le e he).1, hjwks⟩

/-- The second search is in a set that Google has served meanwhile. -/
theorem Inv.retry (h : w.Inv) {kid : Kid} {now : Time} (hserved : ServedSince w.log now jwks)
    (hstart : startedAt ≤ now) :
    Verification.Tracked w.log w.clock ⟨some kid, startedAt, w.retry kid jwks⟩ := by
  obtain ⟨e, he, hnow, rfl⟩ := hserved
  unfold JwksWorld.retry
  cases hfind : findKey kid e.2.keys with
  | none => trivial
  | some found =>
    cases found with
    | some key =>
      obtain ⟨hmem, hkid⟩ := findKey_some hfind
      refine ⟨hkid, e, he, hmem, ?_⟩
      show startedAt < e.1 + hours 1
      unfold hours Time at *
      omega
    | none =>
      exact ⟨e, he, Int.le_trans hstart hnow, (h.log_le e he).2, findKey_none hfind⟩

theorem Inv.start (h : w.Inv) : w.GoesOn header w.clock (w.start header) := by
  unfold JwksWorld.start
  cases hc : w.cached w.clock with
  | none => exact ⟨h, rfl, rfl, rfl, Int.le_refl _, Int.le_refl _⟩
  | some jwks => exact h.search (h.served_of_cached hc) (Int.le_refl _)

theorem Inv.store (h : w.Inv) {now : Time} (hserved : ServedSince w.log now jwks) :
    (w.store now jwks).Inv where
  started := h.started
  served := h.served
  log_le := h.log_le
  cached := by
    intro jwks' hcache
    obtain rfl := Option.some.inj hcache
    exact hserved
  tracked := h.tracked

theorem Inv.goOn (h : w.Inv) {now : Time} (hserved : ServedSince w.log now jwks)
    (hstart : startedAt ≤ now) (retried : Bool) :
    w.GoesOn header startedAt (w.goOn header retried jwks) := by
  obtain ⟨e, he, hnow, hjwks⟩ := hserved
  cases retried with
  | true =>
    refine ⟨h, rfl, rfl, rfl, ?_⟩
    cases header with
    | none => trivial
    | some kid => exact h.retry ⟨e, he, hnow, hjwks⟩ hstart
  | false =>
    refine h.search ⟨e, he, ?_, hjwks⟩ (Int.le_trans hstart (Int.le_trans hnow (h.log_le e he).2))
    unfold hours Time at *
    omega

/-- A verification comes to a phase. -/
theorem Inv.setPhase (h : w.Inv) {v : Verification} {phase : VerificationPhase} (i : ℕ)
    (hv : Verification.Tracked w.log w.clock { v with phase := phase }) :
    (w.setPhase i v phase).Inv :=
  ⟨h.started, h.served, h.log_le, h.cached, h.tracked.set hv⟩

theorem Inv.step {ev : JwksEvent} (h : w.Inv) (hs : w.step ev = some w') : w'.Inv := by
  cases ev with
  | tick d =>
    obtain rfl := Option.some.inj hs
    have hclock : w.clock ≤ w.clock + d := Int.le_add_of_nonneg_right (Int.natCast_nonneg d)
    have hnonneg := (h.log_le _ h.served).1
    refine ⟨Int.le_trans h.started hclock, List.mem_cons_self, ?_, ?_, ?_⟩
    · refine List.forall_mem_cons.mpr ⟨⟨Int.le_trans hnonneg hclock, Int.le_refl _⟩, ?_⟩
      exact fun e he => ⟨(h.log_le e he).1, Int.le_trans (h.log_le e he).2 hclock⟩
    · intro jwks hjwks
      obtain ⟨e, he, hserved⟩ := h.cached jwks hjwks
      exact ⟨e, List.mem_cons_of_mem _ he, hserved⟩
    · exact h.tracked.mono fun v hv => hv.mono (List.subset_cons_self _ _) hclock
  | rotate jwks =>
    obtain rfl := Option.some.inj hs
    have hnonneg := (h.log_le _ h.served).1
    refine ⟨h.started, List.mem_cons_self, ?_, ?_, ?_⟩
    · exact List.forall_mem_cons.mpr ⟨⟨hnonneg, Int.le_refl _⟩, h.log_le⟩
    · intro jwks hjwks
      obtain ⟨e, he, hserved⟩ := h.cached jwks hjwks
      exact ⟨e, List.mem_cons_of_mem _ he, hserved⟩
    · exact h.tracked.mono fun v hv => hv.mono (List.subset_cons_self _ _) (Int.le_refl _)
  | begin header =>
    obtain rfl := Option.some.inj hs
    have hr : w.GoesOn header w.clock (w.start header) := h.start
    refine ⟨hr.inv.started, hr.inv.served, hr.inv.log_le, hr.inv.cached, hr.inv.tracked.append ?_⟩
    show Verification.Tracked (w.start header).1.log (w.start header).1.clock _
    rw [hr.log, hr.clock]
    exact hr.tracked
  | answer i =>
    simp only [JwksWorld.step] at hs
    cases hi : w.verifications[i]? with
    | none =>
      rw [hi] at hs
      cases hs
    | some v =>
      have hv := h.tracked.get hi
      simp only [hi] at hs
      unfold Verification.Tracked at hv
      cases hphase : v.phase with
      | fetching now retried =>
        simp only [hphase] at hs hv
        obtain rfl := Option.some.inj hs
        exact h.setPhase i ⟨hv.1, (w.clock, w.served), h.served, hv.2, rfl⟩
      | answered | decoding | noMatch | raised =>
        simp only [hphase] at hs
        cases hs
  | resume i =>
    simp only [JwksWorld.step] at hs
    cases hi : w.verifications[i]? with
    | none =>
      rw [hi] at hs
      cases hs
    | some v =>
      have hv := h.tracked.get hi
      simp only [hi] at hs
      unfold Verification.Tracked at hv
      cases hphase : v.phase with
      | answered now retried jwks =>
        simp only [hphase] at hs hv
        obtain rfl := Option.some.inj hs
        have hr : (w.store now jwks).GoesOn v.header v.startedAt _ :=
          (h.store hv.2).goOn hv.2 hv.1 retried
        refine hr.inv.setPhase i ?_
        rw [hr.log, hr.clock]
        exact hr.tracked
      | fetching | decoding | noMatch | raised =>
        simp only [hphase] at hs
        cases hs
  | fail i =>
    simp only [JwksWorld.step] at hs
    cases hi : w.verifications[i]? with
    | none =>
      rw [hi] at hs
      cases hs
    | some v =>
      simp only [hi] at hs
      cases hphase : v.phase with
      | fetching | answered =>
        simp only [hphase] at hs
        obtain rfl := Option.some.inj hs
        exact h.setPhase i trivial
      | decoding | noMatch | raised =>
        simp only [hphase] at hs
        cases hs

/-! ## Runs -/

/-- However verifications interleave, with Google replacing its keys at any time and answering late
and out of order: a key that is used was served less than an hour before its verification began, or
later, and a token is only refused for its key if Google did not serve that key at some time during
the verification. -/
theorem keysCurrent_always {t : Time} (h : hours 1 ≤ t) (served : Jwks) (events : List JwksEvent) :
    Run.AllStates step (fun w => Pool.Each (Verification.KeysCurrent w.log) w.verifications)
      (init t served) events := by
  have hinv : Run.AllStates step Inv (init t served) events :=
    Run.AllStates.of_step (fun _ _ _ h hs => h.step hs) (inv_init h served) events
  exact hinv.mono fun w hw => hw.tracked.mono fun v hv => hv.keysCurrent

def keyNamed (kid : String) : SigningKey := ⟨some (some kid), 0⟩

/-- Two verifications at a rotation. The one that asked first is answered first, and its answer
arrives last. -/
def atRotation : List JwksEvent :=
  [.begin (some (some "old")), .begin (some (some "new")), .answer 0,
   .rotate (.of [keyNamed "new"]), .answer 1, .resume 1, .tick 1, .resume 0,
   .begin (some (some "new")), .answer 2, .resume 2]

theorem keysCurrent_always_atRotation :
    hours 1 ≤ hours 2 ∧
      Run.AllStates step (fun w => Pool.Each (Verification.KeysCurrent w.log) w.verifications)
        (init (hours 2) (.of [keyNamed "old"])) atRotation :=
  ⟨by decide, keysCurrent_always (by decide) _ _⟩

/-- Before an hour has passed since 1970 a kept set would not expire. -/
example : (Run.exec step (init 0 (.of [keyNamed "old"]))
    [.begin (some (some "old")), .answer 0, .resume 0, .rotate (.of [keyNamed "new"]), .tick 1,
     .begin (some (some "new"))]).any
      (fun w => w.verifications.any (·.phase = .noMatch 1)) = true := by
  decide +kernel

end JwksWorld
end LeadPulse
