import Mathlib.Data.List.Infix
import LeadPulse.Frontend.Session

/-!
# A page and its callbacks

`lib/api.ts` once more, now with a step for each callback: those of the chain `.then`, `.finally` of
a refresh, what each waiting request does after its `await refreshPromise`, and the request
interceptor, which runs before a request leaves. They follow the arrival of an answer as
microtasks, so that nothing else of the page happens until all of them have run (`quiet`). Between
them other pages may have their turn, and the application may call.

The promises of a page are numbered. A request remembers the one it has awaited and the tokens that
it was sent with.
-/

namespace LeadPulse
namespace Frontend

/-- What comes back for a refresh. -/
inductive Reply where
  | tokens (accessToken refreshToken : ℕ)
  /-- The token is not accepted any more. -/
  | revoked
  /-- Another error, or no answer. -/
  | failed
deriving DecidableEq, Repr

/-- What the promise is settled with, `none` if it is rejected. -/
def Reply.accessToken : Reply → Option ℕ
  | tokens accessToken _ => some accessToken
  | revoked => none
  | failed => none

inductive Stage where
  /-- The reply may be on its way. -/
  | inFlight (reply : Option Reply)
  /-- The reply is there, and no callback has run. -/
  | arrived (reply : Reply)
  /-- `.then` has put the tokens in the storage. -/
  | stored (reply : Reply)
  /-- `.finally` has run. -/
  | settled (reply : Reply)
deriving DecidableEq, Repr

namespace Stage

def isInFlight : Stage → Bool
  | inFlight _ => true
  | _ => false

/-- A callback of the chain is next. -/
def isRunning : Stage → Bool
  | arrived _ => true
  | stored _ => true
  | _ => false

def settledReply : Stage → Option Reply
  | settled reply => some reply
  | _ => none

/-- The reply that no callback has seen. -/
def unseenReply : Stage → Option Reply
  | inFlight reply => reply
  | arrived reply => some reply
  | _ => none

end Stage

/-- The request of a refresh. -/
structure RefreshPost where
  refreshToken : ℕ
  stage : Stage
deriving DecidableEq, Repr

inductive CallPhase where
  /-- The request interceptor has not run. -/
  | calling
  | sent
  /-- Awaiting a promise. -/
  | waiting (k : ℕ)
  | resolved
  | rejected
deriving DecidableEq, Repr

/-- A call of the application. -/
structure ApiCall where
  url : String
  /-- `_retry`. -/
  retry : Bool
  /-- The token in the header of its config. -/
  authorization : Option ℕ
  phase : CallPhase
  /-- The tokens it was sent with, one for each time. -/
  sent : List (Option ℕ)
  /-- The promise it has awaited. -/
  awaited : Option ℕ
deriving DecidableEq, Repr

/-- The endpoints whose errors are left to the callers. -/
def ApiCall.isAuth (r : ApiCall) : Bool := "/api/v1/auth/".toList <:+: r.url.toList

structure Page where
  /-- `refreshPromise`, by its number. -/
  refreshPromise : Option ℕ
  refreshes : List RefreshPost
  calls : List ApiCall
deriving DecidableEq, Repr

/-- A page that has just been loaded. -/
def Page.load : Page := ⟨none, [], []⟩

/-- A page and the storage it sees. -/
structure Tab extends Page where
  storage : LocalStorage
deriving DecidableEq, Repr

namespace Page

/-- What a promise is settled with. -/
def settledReply (p : Page) (k : ℕ) : Option Reply :=
  p.refreshes[k]?.bind fun post => post.stage.settledReply

/-- A call whose callback is next. -/
def isRunning (p : Page) (r : ApiCall) : Bool :=
  match r.phase with
  | .calling => true
  | .waiting k => (p.settledReply k).isSome
  | _ => false

/-- All callbacks have run. -/
def quiet (p : Page) : Bool :=
  p.refreshes.all (fun post => ! post.stage.isRunning) && p.calls.all fun r => ! p.isRunning r

def setStage (p : Page) (k : ℕ) (post : RefreshPost) (stage : Stage) : Page :=
  { p with refreshes := p.refreshes.set k { post with stage := stage } }

/-- The server answers a refresh, or its answer is lost on the way. -/
def reply (p : Page) (k : ℕ) (reply : Reply) : Option Page :=
  p.refreshes[k]?.bind fun post =>
    match post.stage with
    | .inFlight prior =>
      if prior = none ∨ reply = .failed then some (p.setStage k post (.inFlight reply)) else none
    | _ => none

end Page

inductive TabEvent where
  /-- The application calls the API, maybe with a token of its own in the header. -/
  | call (url : String) (authorization : Option ℕ)
  /-- A request passes the request interceptor and is sent. -/
  | dispatch (i : ℕ)
  /-- A request is answered with a status, or fails. -/
  | response (i : ℕ) (status : Option ℕ)
  /-- The reply to a refresh arrives. -/
  | arrive (k : ℕ)
  /-- `.then`. -/
  | store (k : ℕ)
  /-- `.finally`. -/
  | clear (k : ℕ)
  /-- A waiting request goes on. -/
  | resume (i : ℕ)
deriving DecidableEq, Repr

/-- The events that nothing from outside is needed for. -/
def TabEvent.isCallback : TabEvent → Bool
  | dispatch _ | store _ | clear _ | resume _ => true
  | _ => false

namespace Tab

def setCall (s : Tab) (i : ℕ) (r : ApiCall) : Tab := { s with calls := s.calls.set i r }

def setStage (s : Tab) (k : ℕ) (post : RefreshPost) (stage : Stage) : Tab :=
  ⟨s.toPage.setStage k post stage, s.storage⟩

/-! ## The interceptors -/

def call (s : Tab) (url : String) (authorization : Option ℕ) : Tab :=
  { s with calls := s.calls ++ [{ url := url, retry := false, authorization := authorization,
                                  phase := .calling, sent := [], awaited := none }] }

/-- The request interceptor: a token in the storage replaces the one in the header. -/
def dispatch (s : Tab) (i : ℕ) (r : ApiCall) : Tab :=
  let token := s.storage.accessToken.or r.authorization
  s.setCall i { r with authorization := token, phase := .sent, sent := r.sent ++ [token] }

def reject (s : Tab) (i : ℕ) (r : ApiCall) : Tab := s.setCall i { r with phase := .rejected }

/-- The call awaits a promise. -/
def await (s : Tab) (i : ℕ) (r : ApiCall) (k : ℕ) : Tab :=
  s.setCall i { r with retry := true, phase := .waiting k, awaited := some k }

/-- The call posts a refresh, and awaits its promise. -/
def post (s : Tab) (i : ℕ) (r : ApiCall) (refreshToken : ℕ) : Tab :=
  { s.await i r s.refreshes.length with
    refreshPromise := some s.refreshes.length
    refreshes := s.refreshes ++ [⟨refreshToken, .inFlight none⟩] }

/-- The first error 401 of a call. -/
def refresh (s : Tab) (i : ℕ) (r : ApiCall) : Tab :=
  match s.refreshPromise with
  | some k => s.await i r k
  | none =>
    match s.storage.refreshToken with
    | none => { s.reject i { r with retry := true } with storage := .empty }
    | some refreshToken => s.post i r refreshToken

/-- The response interceptor. -/
def response (s : Tab) (i : ℕ) (r : ApiCall) (status : Option ℕ) : Tab :=
  if status.any fun status => 200 ≤ status ∧ status < 300 then
    s.setCall i { r with phase := .resolved }
  else if r.isAuth then s.reject i r
  else if status = some 401 ∧ ! r.retry then s.refresh i r
  else s.reject i r

/-- What a waiting call does when its promise is settled. -/
def resume (s : Tab) (i : ℕ) (r : ApiCall) (reply : Reply) : Tab :=
  match reply.accessToken with
  | some newToken =>
    s.setCall i { r with authorization := some newToken, phase := .calling }
  | none => { s.reject i r with storage := .empty }

/-! ## One event -/

def step (s : Tab) : TabEvent → Option Tab
  | .call url authorization => some (s.call url authorization)
  | .dispatch i => s.calls[i]?.bind fun r =>
      if r.phase = .calling then some (s.dispatch i r) else none
  | .response i status => s.calls[i]?.bind fun r =>
      if s.quiet ∧ r.phase = .sent then some (s.response i r status) else none
  | .arrive k => s.refreshes[k]?.bind fun post =>
      match post.stage with
      | .inFlight (some reply) =>
        if s.quiet then some (s.setStage k post (.arrived reply)) else none
      | _ => none
  | .store k => s.refreshes[k]?.bind fun post =>
      match post.stage with
      | .arrived (.tokens accessToken refreshToken) =>
        some { s.setStage k post (.stored (.tokens accessToken refreshToken)) with
          storage := ⟨some accessToken, some refreshToken⟩ }
      | _ => none
  | .clear k => s.refreshes[k]?.bind fun post =>
      match post.stage with
      | .stored reply =>
        some { s.setStage k post (.settled reply) with refreshPromise := none }
      | .arrived reply =>
        if reply.accessToken = none then
          some { s.setStage k post (.settled reply) with refreshPromise := none }
        else none
      | _ => none
  | .resume i => s.calls[i]?.bind fun r =>
      match r.phase with
      | .waiting k => (s.settledReply k).map fun reply => s.resume i r reply
      | _ => none

/-- What an event does, by the branches that are taken. -/
inductive Move (s : Tab) : TabEvent → Tab → Prop
  | call (url : String) (authorization : Option ℕ) :
    Move s (.call url authorization) (s.call url authorization)
  | dispatch {i : ℕ} {r : ApiCall} (hr : s.calls[i]? = some r) (hphase : r.phase = .calling) :
    Move s (.dispatch i) (s.dispatch i r)
  /-- The promise of the call settles without a refresh. -/
  | ended {i : ℕ} {r : ApiCall} {status : Option ℕ} {phase : CallPhase}
    (hr : s.calls[i]? = some r) (hq : s.quiet = true) (hphase : r.phase = .sent)
    (hend : phase = .resolved ∨ phase = .rejected) :
    Move s (.response i status) (s.setCall i { r with phase := phase })
  | joined {i k : ℕ} {r : ApiCall} (hr : s.calls[i]? = some r) (hq : s.quiet = true)
    (hphase : r.phase = .sent) (hretry : r.retry = false)
    (hpromise : s.refreshPromise = some k) :
    Move s (.response i (some 401)) (s.await i r k)
  | loggedOut {i : ℕ} {r : ApiCall} (hr : s.calls[i]? = some r) (hq : s.quiet = true)
    (hphase : r.phase = .sent) (hretry : r.retry = false) :
    Move s (.response i (some 401)) { s.reject i { r with retry := true } with storage := .empty }
  | posted {i refreshToken : ℕ} {r : ApiCall} (hr : s.calls[i]? = some r) (hq : s.quiet = true)
    (hphase : r.phase = .sent) (hretry : r.retry = false) (hpromise : s.refreshPromise = none)
    (htoken : s.storage.refreshToken = some refreshToken) :
    Move s (.response i (some 401)) (s.post i r refreshToken)
  | arrive {k : ℕ} {post : RefreshPost} {reply : Reply} (hpost : s.refreshes[k]? = some post)
    (hstage : post.stage = .inFlight (some reply)) (hq : s.quiet = true) :
    Move s (.arrive k) (s.setStage k post (.arrived reply))
  | store {k accessToken refreshToken : ℕ} {post : RefreshPost}
    (hpost : s.refreshes[k]? = some post)
    (hstage : post.stage = .arrived (.tokens accessToken refreshToken)) :
    Move s (.store k)
      { s.setStage k post (.stored (.tokens accessToken refreshToken)) with
        storage := ⟨some accessToken, some refreshToken⟩ }
  | clear {k : ℕ} {post : RefreshPost} {reply : Reply} (hpost : s.refreshes[k]? = some post)
    (hstage : post.stage = .stored reply ∨
      post.stage = .arrived reply ∧ reply.accessToken = none) :
    Move s (.clear k)
      { s.setStage k post (.settled reply) with refreshPromise := none }
  | resent {i k newToken : ℕ} {r : ApiCall} {reply : Reply} (hr : s.calls[i]? = some r)
    (hphase : r.phase = .waiting k) (hreply : s.settledReply k = some reply)
    (htoken : reply.accessToken = some newToken) :
    Move s (.resume i) (s.setCall i { r with authorization := some newToken, phase := .calling })
  | gaveUp {i k : ℕ} {r : ApiCall} {reply : Reply} (hr : s.calls[i]? = some r)
    (hphase : r.phase = .waiting k) (hreply : s.settledReply k = some reply)
    (htoken : reply.accessToken = none) :
    Move s (.resume i) { s.reject i r with storage := .empty }

variable {s s' : Tab} {ev : TabEvent}

theorem response_cases {i : ℕ} {r : ApiCall} {status : Option ℕ} (hr : s.calls[i]? = some r)
    (hq : s.quiet = true) (hphase : r.phase = .sent) :
    Move s (.response i status) (s.response i r status) := by
  unfold response
  split
  · exact .ended hr hq hphase (.inl rfl)
  · split
    · exact .ended hr hq hphase (.inr rfl)
    · split
      · rename_i hstatus
        have hretry : r.retry = false := by simpa using hstatus.2
        rw [hstatus.1]
        unfold refresh
        split
        · rename_i k hpromise
          exact .joined hr hq hphase hretry hpromise
        · rename_i hpromise
          split
          · exact .loggedOut hr hq hphase hretry
          · rename_i refreshToken htoken
            exact .posted hr hq hphase hretry hpromise htoken
      · exact .ended hr hq hphase (.inr rfl)

/-- Every event that takes place is one of these. -/
theorem step_cases (h : s.step ev = some s') : Move s ev s' := by
  cases ev with
  | call url authorization =>
    cases h
    exact .call url authorization
  | dispatch i =>
    obtain ⟨r, hr, h⟩ := Option.bind_eq_some_iff.mp h
    split at h
    · cases h
      exact .dispatch hr ‹_›
    · cases h
  | response i status =>
    obtain ⟨r, hr, h⟩ := Option.bind_eq_some_iff.mp h
    split at h
    · rename_i hq
      cases h
      exact response_cases hr hq.1 hq.2
    · cases h
  | arrive k =>
    obtain ⟨post, hpost, h⟩ := Option.bind_eq_some_iff.mp h
    split at h
    · split at h
      · cases h
        exact .arrive hpost ‹_› ‹_›
      · cases h
    · cases h
  | store k =>
    obtain ⟨post, hpost, h⟩ := Option.bind_eq_some_iff.mp h
    split at h
    · cases h
      exact .store hpost ‹_›
    · cases h
  | clear k =>
    obtain ⟨post, hpost, h⟩ := Option.bind_eq_some_iff.mp h
    split at h
    · cases h
      exact .clear hpost (.inl ‹_›)
    · split at h
      · cases h
        exact .clear hpost (.inr ⟨‹_›, ‹_›⟩)
      · cases h
    · cases h
  | resume i =>
    obtain ⟨r, hr, h⟩ := Option.bind_eq_some_iff.mp h
    split at h
    · obtain ⟨reply, hreply, rfl⟩ := Option.map_eq_some_iff.mp h
      unfold resume
      split
      · exact .resent hr ‹_› hreply ‹_›
      · exact .gaveUp hr ‹_› hreply ‹_›
    · cases h

end Tab

/-! ## The numbered promises -/

theorem Stage.settledReply_eq_some_iff {stage : Stage} {reply : Reply} :
    stage.settledReply = some reply ↔ stage = .settled reply := by
  cases stage <;> simp [Stage.settledReply]

namespace Page

variable {p : Page} {i j k : ℕ} {post : RefreshPost} {r : ApiCall} {reply : Reply}

theorem settledReply_eq_some_iff :
    p.settledReply k = some reply ↔
      ∃ post, p.refreshes[k]? = some post ∧ post.stage = .settled reply := by
  unfold settledReply
  rw [Option.bind_eq_some_iff]
  exact exists_congr fun post => and_congr_right fun _ => Stage.settledReply_eq_some_iff

theorem getElem?_setStage (h : p.refreshes[k]? = some post) (j : ℕ) (stage : Stage) :
    (p.setStage k post stage).refreshes[j]? =
      if k = j then some { post with stage := stage } else p.refreshes[j]? := by
  have hlt := (List.getElem?_eq_some_iff.mp h).1
  unfold setStage
  rw [List.getElem?_set, if_pos hlt]

/-- A settled promise stays settled. -/
theorem settledReply_setStage {stage : Stage} (hpost : p.refreshes[k]? = some post)
    (hstage : post.stage.settledReply = none) (h : p.settledReply j = some reply) :
    (p.setStage k post stage).settledReply j = some reply := by
  obtain ⟨post', hpost', hsettled⟩ := settledReply_eq_some_iff.mp h
  refine settledReply_eq_some_iff.mpr ⟨post', ?_, hsettled⟩
  have hne : k ≠ j := by
    rintro rfl
    rw [hpost] at hpost'
    obtain rfl := Option.some.inj hpost'
    rw [hsettled] at hstage
    cases hstage
  rw [getElem?_setStage hpost, if_neg hne]
  exact hpost'

theorem reply_eq_some {p' : Page} (h : p.reply k reply = some p') :
    ∃ post prior, p.refreshes[k]? = some post ∧ post.stage = .inFlight prior ∧
      (prior = none ∨ reply = .failed) ∧ p' = p.setStage k post (.inFlight reply) := by
  obtain ⟨post, hpost, h⟩ := Option.bind_eq_some_iff.mp h
  split at h
  · rename_i prior hstage
    split at h
    · exact ⟨post, prior, hpost, hstage, ‹_›, (Option.some.inj h).symm⟩
    · cases h
  · cases h

theorem quiet_iff :
    p.quiet = true ↔ (∀ post ∈ p.refreshes, post.stage.isRunning = false) ∧
      ∀ r ∈ p.calls, p.isRunning r = false := by
  simp [quiet]

end Page

/-! ## The callbacks come to an end -/

/-- How many callbacks follow from what has arrived, at most. -/
def Stage.weight : Stage → ℕ
  | inFlight _ => 0
  | arrived _ => 2
  | stored _ => 1
  | settled _ => 0

def CallPhase.weight : CallPhase → ℕ
  | calling => 1
  | waiting _ => 2
  | _ => 0

def Page.weight (p : Page) : ℕ :=
  (p.refreshes.map (·.stage.weight)).sum + (p.calls.map (·.phase.weight)).sum

namespace Tab

variable {s s' : Tab} {ev : TabEvent}

theorem weight_setCall {i : ℕ} {r r' : ApiCall} (hr : s.calls[i]? = some r)
    (hlt : r'.phase.weight < r.phase.weight) : (s.setCall i r').weight < s.weight := by
  have hsum := Pool.sum_set (fun r : ApiCall => r.phase.weight) r' hr
  show (s.refreshes.map _).sum + ((s.calls.set i r').map _).sum < (s.refreshes.map _).sum + _
  omega

theorem weight_setStage {k : ℕ} {post : RefreshPost} {stage : Stage}
    (hpost : s.refreshes[k]? = some post) (hlt : stage.weight < post.stage.weight) :
    (s.setStage k post stage).weight < s.weight := by
  have hsum := Pool.sum_set (fun post : RefreshPost => post.stage.weight)
    { post with stage := stage } hpost
  dsimp only at hsum
  show ((s.refreshes.set k _).map _).sum + (s.calls.map _).sum < _ + (s.calls.map _).sum
  omega

theorem weight_step (h : s.step ev = some s') (hev : ev.isCallback = true) :
    s'.weight < s.weight := by
  cases step_cases h with
  | dispatch hr hphase => exact weight_setCall hr (by rw [hphase]; exact Nat.one_pos)
  | store hpost hstage => exact weight_setStage hpost (by rw [hstage]; exact Nat.lt_succ_self 1)
  | @clear k post reply hpost hstage =>
    have hlt : (Stage.settled reply).weight < post.stage.weight := by
      rcases hstage with hstage | hstage
      · rw [hstage]
        exact Nat.one_pos
      · rw [hstage.1]
        exact Nat.two_pos
    exact weight_setStage hpost hlt
  | resent hr hphase _ _ => exact weight_setCall hr (by rw [hphase]; exact Nat.lt_succ_self 1)
  | gaveUp hr hphase _ _ => exact weight_setCall hr (by rw [hphase]; exact Nat.two_pos)
  | _ => cases hev

/-- As long as the page is not quiet, one of the callbacks can run. -/
theorem exists_callback (h : s.quiet = false) :
    ∃ ev, ev.isCallback = true ∧ (s.step ev).isSome = true := by
  have hnot : ¬ s.quiet = true := by
    rw [h]
    exact Bool.false_ne_true
  rw [Page.quiet_iff, not_and_or] at hnot
  rcases hnot with hnot | hnot
  · push Not at hnot
    obtain ⟨post, hmem, hrunning⟩ := hnot
    obtain ⟨k, hpost⟩ := List.mem_iff_getElem?.mp hmem
    cases hstage : post.stage with
    | arrived reply =>
      cases reply with
      | tokens accessToken refreshToken => exact ⟨.store k, rfl, by simp [step, hpost, hstage]⟩
      | revoked => exact ⟨.clear k, rfl, by simp [step, hpost, hstage, Reply.accessToken]⟩
      | failed => exact ⟨.clear k, rfl, by simp [step, hpost, hstage, Reply.accessToken]⟩
    | stored reply => exact ⟨.clear k, rfl, by simp [step, hpost, hstage]⟩
    | _ =>
      rw [hstage] at hrunning
      exact absurd rfl hrunning
  · push Not at hnot
    obtain ⟨r, hmem, hrunning⟩ := hnot
    obtain ⟨i, hr⟩ := List.mem_iff_getElem?.mp hmem
    cases hphase : r.phase with
    | calling => exact ⟨.dispatch i, rfl, by simp [step, hr, hphase]⟩
    | waiting k =>
      have hsettled : (s.settledReply k).isSome = true := by
        simpa [Page.isRunning, hphase, Option.isSome_iff_ne_none] using hrunning
      exact ⟨.resume i, rfl, by simpa [step, hr, hphase] using hsettled⟩
    | _ => simp [Page.isRunning, hphase] at hrunning

/-- The callbacks come to an end. -/
theorem exists_quiet (s : Tab) : ∃ callbacks t, (∀ ev ∈ callbacks, ev.isCallback = true) ∧
    Run.exec step s callbacks = some t ∧ t.quiet = true := by
  induction hw : s.weight using Nat.strongRecOn generalizing s with
  | ind w ih =>
    cases hq : s.quiet with
    | true => exact ⟨[], s, by simp, rfl, hq⟩
    | false =>
      obtain ⟨ev, hev, hsome⟩ := exists_callback hq
      obtain ⟨s', hs⟩ := Option.isSome_iff_exists.mp hsome
      have hlt := weight_step hs hev
      rw [hw] at hlt
      obtain ⟨callbacks, t, hall, hexec, hquiet⟩ := ih _ hlt s' rfl
      refine ⟨ev :: callbacks, t, ?_, ?_, hquiet⟩
      · intro ev' hmem
        rcases List.mem_cons.mp hmem with rfl | hmem
        · exact hev
        · exact hall ev' hmem
      · rw [Run.exec_cons, hs]
        exact hexec

end Tab

end Frontend
end LeadPulse
