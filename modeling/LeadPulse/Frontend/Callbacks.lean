import LeadPulse.Frontend.SingleFlight

/-!
# The callbacks of a refresh as one step

`Frontend.Session` takes the arrival of an answer, with all that follows from it, as one event,
where a page runs a callback for each waiting request. Here the two are compared, at the moments at
which the page is quiet: the session shows what the page has in its storage and in flight
(`Shows`), and goes on showing it when a request is sent (`shows_request`), when it is answered
(`shows_response`), when a refresh is answered (`shows_reply`) and when the answer has arrived
(`shows_refreshed`), in whatever order the callbacks run.
-/

namespace LeadPulse
namespace Frontend

/-! ## What a session shows of a page -/

def ApiCall.request (r : ApiCall) : ApiRequest where
  token := r.authorization
  retry := r.retry
  phase :=
    match r.phase with
    | .calling => .sent
    | .sent => .sent
    | .waiting _ => .waiting
    | .resolved => .settled
    | .rejected => .settled

def Reply.pair : Reply → Option (ℕ × ℕ)
  | tokens accessToken refreshToken => some (accessToken, refreshToken)
  | revoked => none
  | failed => none

def RefreshPost.refreshCall (post : RefreshPost) : Option RefreshCall :=
  match post.stage with
  | .inFlight none => some (.sent post.refreshToken)
  | .inFlight (some reply) => some (.answered reply.pair)
  | _ => none

def Page.refreshCall (p : Page) : Option RefreshCall :=
  p.refreshPromise.bind fun k => p.refreshes[k]?.bind fun post => post.refreshCall

structure Shows (s : Tab) (v : Session) : Prop where
  storage : v.storage = s.storage
  refreshPromise : v.refreshPromise = s.refreshCall
  requests : v.requests = s.calls.map ApiCall.request

/-! ## The callbacks -/

/-- What the end of its refresh makes of a waiting call. -/
def ApiCall.settle (k : ℕ) (reply : Reply) (r : ApiCall) : ApiCall :=
  if r.phase = .waiting k then
    match reply.accessToken with
    | some newToken => { r with authorization := some newToken, phase := .sent,
                                sent := r.sent ++ [some newToken] }
    | none => { r with phase := .rejected }
  else r

/-- A call whose callbacks may have run. -/
inductive Between (k : ℕ) (reply : Reply) (r : ApiCall) : ApiCall → Prop
  | same : Between k reply r r
  | calling {newToken : ℕ} (hphase : r.phase = .waiting k)
    (htoken : reply.accessToken = some newToken) :
    Between k reply r { r with authorization := some newToken, phase := .calling }
  | done (hphase : r.phase = .waiting k) : Between k reply r (r.settle k reply)

/-- The states between the arrival of a reply and the last callback. -/
inductive Settling (s : Tab) (k : ℕ) (post : RefreshPost) (reply : Reply) : Tab → Prop
  | arrived : Settling s k post reply (s.setStage k post (.arrived reply))
  | stored {accessToken refreshToken : ℕ} (hreply : reply = .tokens accessToken refreshToken) :
    Settling s k post reply { s.setStage k post (.stored reply) with
                              storage := ⟨some accessToken, some refreshToken⟩ }
  | settled {u : Tab} (hpromise : u.refreshPromise = none)
    (hrefreshes : u.refreshes = (s.setStage k post (.settled reply)).refreshes)
    (hcalls : List.Forall₂ (Between k reply) s.calls u.calls)
    (htokens : ∀ {a t}, reply = .tokens a t → u.storage = ⟨some a, some t⟩)
    (hfailed : reply.accessToken = none →
      u.storage = .empty ∨ u.storage = s.storage ∧ u.calls = s.calls) :
    Settling s k post reply u

section

variable {s u u' : Tab} {ev : TabEvent} {n i j k : ℕ} {r : ApiCall} {post : RefreshPost}
  {reply : Reply}

/-- In a quiet page the calls that wait await the refresh in flight. -/
theorem phase_of_inFlight (h : Inv s n) (hq : s.quiet = true) (hk : s.InFlight k)
    (hr : r ∈ s.calls) (hout : r.phase.isOut = false) : r.phase = .waiting k := by
  obtain ⟨j, hphase, _, hlast⟩ := phase_of_quiet hq hr (h.follows r hr) hout
  have hlast' := h.last (h.promise_of_inFlight hk)
  have heq : j = k := by omega
  rw [hphase, heq]

/-- Before `.finally` has run no call can go on. -/
theorem isRunning_of_inFlight {stage : Stage} (h : Inv s n) (hq : s.quiet = true)
    (hpost : s.refreshes[k]? = some post) (hflight : post.stage.isInFlight = true)
    (hunsettled : stage.settledReply = none) (hr : r ∈ s.calls) :
    (s.setStage k post stage).isRunning r = false := by
  cases hout : r.phase.isOut with
  | true =>
    unfold Page.isRunning
    cases hphase : r.phase <;> simp_all [CallPhase.isOut]
  | false =>
    have hphase := phase_of_inFlight h hq ⟨post, hpost, hflight⟩ hr hout
    have hpost' : (s.setStage k post stage).refreshes[k]? = some { post with stage := stage } :=
      (Page.getElem?_setStage hpost k stage).trans (if_pos rfl)
    have hnone := settledReply_eq_none hpost' hunsettled
    unfold Page.isRunning
    rw [hphase]
    exact congrArg Option.isSome hnone

theorem idle_of_inFlight {stage : Stage} (h : Inv s n) (hq : s.quiet = true)
    (hpost : s.refreshes[k]? = some post) (hflight : post.stage.isInFlight = true)
    (hunsettled : stage.settledReply = none) :
    ¬ ∃ r ∈ s.calls, (s.setStage k post stage).isRunning r = true := by
  rintro ⟨r, hr, hrunning⟩
  rw [isRunning_of_inFlight h hq hpost hflight hunsettled hr] at hrunning
  cases hrunning

/-- Of the callbacks of the chain only those of the refresh that has arrived are left. -/
theorem post_of_isRunning {stage : Stage} {post' : RefreshPost} (hq : s.quiet = true)
    (hpost : s.refreshes[k]? = some post)
    (hpost' : (s.setStage k post stage).refreshes[j]? = some post')
    (hrunning : post'.stage.isRunning = true) : j = k ∧ post' = { post with stage := stage } := by
  rw [show (s.setStage k post stage).refreshes[j]? = _ from Page.getElem?_setStage hpost j stage]
    at hpost'
  split at hpost'
  · cases hpost'
    exact ⟨Eq.symm ‹_›, rfl⟩
  · rw [(Page.quiet_iff.mp hq).1 post' (List.mem_of_getElem? hpost')] at hrunning
    cases hrunning

theorem isRunning_of_clear
    (h : post.stage = .stored reply ∨ post.stage = .arrived reply ∧ reply.accessToken = none) :
    post.stage.isRunning = true := by
  rcases h with hstage | ⟨hstage, _⟩
  · rw [hstage]
    rfl
  · rw [hstage]
    rfl

theorem setStage_setStage {stage stage' : Stage} :
    (s.setStage k post stage).setStage k { post with stage := stage } stage' =
      s.setStage k post stage' := by
  simp [Tab.setStage, Page.setStage]

/-- A callback of a call, in a state in which no call can go on. -/
theorem not_isRunning_of_move (hm : Tab.Move u ev u') (hev : ev = .dispatch i ∨ ev = .resume i) :
    ∃ r ∈ u.calls, u.isRunning r = true := by
  cases hm with
  | dispatch hr hphase =>
    refine ⟨_, List.mem_of_getElem? hr, ?_⟩
    unfold Page.isRunning
    rw [hphase]
  | resent hr hphase hreply _ =>
    refine ⟨_, List.mem_of_getElem? hr, ?_⟩
    unfold Page.isRunning
    rw [hphase]
    exact congrArg Option.isSome hreply
  | gaveUp hr hphase hreply _ =>
    refine ⟨_, List.mem_of_getElem? hr, ?_⟩
    unfold Page.isRunning
    rw [hphase]
    exact congrArg Option.isSome hreply
  | _ => rcases hev with hev | hev <;> cases hev

theorem Settling.of_arrived (h : Inv s n) (hq : s.quiet = true)
    (hpost : s.refreshes[k]? = some post) (hflight : post.stage.isInFlight = true)
    (hm : Tab.Move (s.setStage k post (.arrived reply)) ev u') (hev : ev.isCallback = true) :
    Settling s k post reply u' := by
  have hidle : ¬ ∃ r ∈ s.calls, (s.setStage k post (.arrived reply)).isRunning r = true :=
    idle_of_inFlight h hq hpost hflight rfl
  cases ev with
  | dispatch i => exact absurd (not_isRunning_of_move hm (Or.inl rfl)) hidle
  | resume i => exact absurd (not_isRunning_of_move hm (Or.inr rfl)) hidle
  | store j =>
    cases hm with
    | store hpost' hstage' =>
      obtain ⟨rfl, rfl⟩ := post_of_isRunning hq hpost hpost' (by rw [hstage']; rfl)
      obtain rfl := Stage.arrived.inj hstage'
      rw [setStage_setStage]
      exact .stored rfl
  | clear j =>
    cases hm with
    | @clear _ post' reply' hpost' hstage' =>
      obtain ⟨rfl, rfl⟩ := post_of_isRunning hq hpost hpost' (isRunning_of_clear hstage')
      obtain ⟨rfl, hnone⟩ : reply = reply' ∧ reply'.accessToken = none := by
        rcases hstage' with hstage' | ⟨hstage', hnone⟩
        · cases hstage'
        · exact ⟨Stage.arrived.inj hstage', hnone⟩
      rw [setStage_setStage]
      refine .settled rfl rfl (List.forall₂_same.mpr fun _ _ => .same) (fun htokens => ?_)
        fun _ => Or.inr ⟨rfl, rfl⟩
      rw [htokens] at hnone
      cases hnone
  | _ => cases hev

theorem Settling.of_stored {accessToken refreshToken : ℕ} (h : Inv s n) (hq : s.quiet = true)
    (hpost : s.refreshes[k]? = some post) (hflight : post.stage.isInFlight = true)
    (hreply : reply = .tokens accessToken refreshToken)
    (hm : Tab.Move { s.setStage k post (.stored reply) with
                     storage := ⟨some accessToken, some refreshToken⟩ } ev u')
    (hev : ev.isCallback = true) : Settling s k post reply u' := by
  have hidle : ¬ ∃ r ∈ s.calls, (s.setStage k post (.stored reply)).isRunning r = true :=
    idle_of_inFlight h hq hpost hflight rfl
  cases ev with
  | dispatch i => exact absurd (not_isRunning_of_move hm (Or.inl rfl)) hidle
  | resume i => exact absurd (not_isRunning_of_move hm (Or.inr rfl)) hidle
  | store j =>
    cases hm with
    | store hpost' hstage' =>
      obtain ⟨rfl, rfl⟩ := post_of_isRunning hq hpost hpost' (by rw [hstage']; rfl)
      cases hstage'
  | clear j =>
    cases hm with
    | @clear _ post' reply' hpost' hstage' =>
      obtain ⟨rfl, rfl⟩ := post_of_isRunning hq hpost hpost' (isRunning_of_clear hstage')
      obtain rfl : reply = reply' := by
        rcases hstage' with hstage' | ⟨hstage', _⟩
        · exact Stage.stored.inj hstage'
        · cases hstage'
      refine .settled rfl (congrArg (·.refreshes) setStage_setStage)
        (List.forall₂_same.mpr fun _ _ => .same) (fun htokens => ?_) fun hnone => ?_
      · rw [htokens] at hreply
        cases hreply
        rfl
      · rw [hreply] at hnone
        cases hnone
  | _ => cases hev

theorem settle_of_token {newToken : ℕ} (hphase : r.phase = .waiting k)
    (htoken : reply.accessToken = some newToken) :
    r.settle k reply = { r with authorization := some newToken, phase := .sent,
                                sent := r.sent ++ [some newToken] } := by
  unfold ApiCall.settle
  rw [if_pos hphase, htoken]

theorem settle_of_none (hphase : r.phase = .waiting k) (hnone : reply.accessToken = none) :
    r.settle k reply = { r with phase := .rejected } := by
  unfold ApiCall.settle
  rw [if_pos hphase, hnone]

/-- A call that waits has not gone on. -/
theorem Between.of_waiting {r' : ApiCall} (h : Between k reply r r')
    (hphase : r'.phase = .waiting j) : r' = r := by
  cases h with
  | same => rfl
  | calling _ _ => cases hphase
  | done hwaiting =>
    cases htoken : reply.accessToken with
    | none =>
      rw [settle_of_none hwaiting htoken] at hphase
      cases hphase
    | some newToken =>
      rw [settle_of_token hwaiting htoken] at hphase
      cases hphase

theorem Reply.exists_tokens {newToken : ℕ} (h : reply.accessToken = some newToken) :
    ∃ refreshToken, reply = .tokens newToken refreshToken := by
  cases reply with
  | tokens accessToken refreshToken =>
    obtain rfl := Option.some.inj h
    exact ⟨refreshToken, rfl⟩
  | revoked => cases h
  | failed => cases h

theorem settledReply_of_refreshes (hpost : s.refreshes[k]? = some post)
    (hrefreshes : u.refreshes = (s.setStage k post (.settled reply)).refreshes) :
    u.settledReply k = some reply := by
  refine Page.settledReply_eq_some_iff.mpr ⟨{ post with stage := .settled reply }, ?_, rfl⟩
  rw [hrefreshes]
  exact (Page.getElem?_setStage hpost k _).trans (if_pos rfl)

/-- Once `.finally` has run, each callback is one of a call that waited. -/
theorem Settling.of_settled (h : Inv s n) (hq : s.quiet = true)
    (hpost : s.refreshes[k]? = some post) (hflight : post.stage.isInFlight = true)
    (hpromise : u.refreshPromise = none)
    (hrefreshes : u.refreshes = (s.setStage k post (.settled reply)).refreshes)
    (hcalls : List.Forall₂ (Between k reply) s.calls u.calls)
    (htokens : ∀ {a t}, reply = .tokens a t → u.storage = ⟨some a, some t⟩)
    (hm : Tab.Move u ev u') (hev : ev.isCallback = true) : Settling s k post reply u' := by
  have hchain {j : ℕ} {post' : RefreshPost} (hpost' : u.refreshes[j]? = some post') :
      post'.stage.isRunning = false := by
    rw [hrefreshes] at hpost'
    by_contra hrunning
    rw [Bool.not_eq_false] at hrunning
    obtain ⟨_, rfl⟩ := post_of_isRunning hq hpost hpost' hrunning
    cases hrunning
  have hreply := settledReply_of_refreshes hpost hrefreshes
  have hwaiting {r : ApiCall} (hr : r ∈ s.calls) (hout : r.phase.isOut = false) :
      r.phase = .waiting k := phase_of_inFlight h hq ⟨post, hpost, hflight⟩ hr hout
  cases hm with
  | @dispatch i r' hr' hphase =>
    obtain ⟨r, hr, hbetween⟩ := Pool.forall₂_get hcalls hr'
    cases hbetween with
    | same =>
      -- in the quiet page nothing was about to be sent
      rw [hwaiting (List.mem_of_getElem? hr) (by rw [hphase]; rfl)] at hphase
      cases hphase
    | @calling newToken hwaits htoken =>
      obtain ⟨refreshToken, heq⟩ := Reply.exists_tokens htoken
      -- the interceptor finds the token that `.then` has stored
      have htoken' : u.storage.accessToken.or (some newToken) = some newToken := by
        rw [htokens heq]
        rfl
      have hdone : Between k reply r
          { r with authorization := u.storage.accessToken.or (some newToken), phase := .sent,
                   sent := r.sent ++ [u.storage.accessToken.or (some newToken)] } := by
        rw [htoken', ← settle_of_token hwaits htoken]
        exact .done hwaits
      refine .settled hpromise hrefreshes (Pool.forall₂_set hcalls hr hdone) htokens
        fun hnone => ?_
      rw [htoken] at hnone
      cases hnone
    | done hwaits =>
      cases htoken : reply.accessToken with
      | none =>
        rw [settle_of_none hwaits htoken] at hphase
        cases hphase
      | some newToken =>
        rw [settle_of_token hwaits htoken] at hphase
        cases hphase
  | @resent i j newToken r' reply' hr' hphase hreply' htoken =>
    obtain ⟨r, hr, hbetween⟩ := Pool.forall₂_get hcalls hr'
    obtain rfl : r = r' := (hbetween.of_waiting hphase).symm
    have hwaits := hwaiting (List.mem_of_getElem? hr) (by rw [hphase]; rfl)
    obtain rfl : k = j := CallPhase.waiting.inj (hwaits.symm.trans hphase)
    obtain rfl : reply = reply' := Option.some.inj (hreply.symm.trans hreply')
    refine .settled hpromise hrefreshes (Pool.forall₂_set hcalls hr (.calling hwaits htoken))
      htokens fun hnone => ?_
    rw [htoken] at hnone
    cases hnone
  | @gaveUp i j r' reply' hr' hphase hreply' hnone =>
    obtain ⟨r, hr, hbetween⟩ := Pool.forall₂_get hcalls hr'
    obtain rfl : r = r' := (hbetween.of_waiting hphase).symm
    have hwaits := hwaiting (List.mem_of_getElem? hr) (by rw [hphase]; rfl)
    obtain rfl : k = j := CallPhase.waiting.inj (hwaits.symm.trans hphase)
    obtain rfl : reply = reply' := Option.some.inj (hreply.symm.trans hreply')
    have hdone : Between k reply r { r with phase := .rejected } := by
      rw [← settle_of_none hwaits hnone]
      exact .done hwaits
    refine .settled hpromise hrefreshes (Pool.forall₂_set hcalls hr hdone) (fun htokens => ?_)
      fun _ => Or.inl rfl
    rw [htokens] at hnone
    cases hnone
  | store hpost' hstage =>
    have hrunning := hchain hpost'
    rw [hstage] at hrunning
    cases hrunning
  | clear hpost' hstage =>
    have hrunning := hchain hpost'
    rw [isRunning_of_clear hstage] at hrunning
    cases hrunning
  | _ => cases hev

theorem Settling.move (h : Inv s n) (hq : s.quiet = true) (hpost : s.refreshes[k]? = some post)
    (hflight : post.stage.isInFlight = true) (hu : Settling s k post reply u)
    (hm : Tab.Move u ev u') (hev : ev.isCallback = true) : Settling s k post reply u' := by
  cases hu with
  | arrived => exact of_arrived h hq hpost hflight hm hev
  | stored hreply => exact of_stored h hq hpost hflight hreply hm hev
  | settled hpromise hrefreshes hcalls htokens _ =>
    exact of_settled h hq hpost hflight hpromise hrefreshes hcalls htokens hm hev

/-- Whatever callbacks have run. -/
theorem Settling.exec {callbacks : List TabEvent} (h : Inv s n) (hq : s.quiet = true)
    (hpost : s.refreshes[k]? = some post) (hflight : post.stage.isInFlight = true)
    (hu : Settling s k post reply u) (hall : ∀ ev ∈ callbacks, ev.isCallback = true)
    (hexec : Run.exec Tab.step u callbacks = some u') : Settling s k post reply u' := by
  induction callbacks generalizing u with
  | nil =>
    cases hexec
    exact hu
  | cons ev callbacks ih =>
    obtain ⟨w, hw, hexec⟩ := Option.bind_eq_some_iff.mp hexec
    have hev := hall ev List.mem_cons_self
    exact ih (hu.move h hq hpost hflight (Tab.step_cases hw) hev)
      (fun ev' hmem => hall ev' (List.mem_cons_of_mem ev hmem)) hexec

/-- The state after the last callback. -/
theorem Settling.of_quiet (h : Inv s n) (hpost : s.refreshes[k]? = some post)
    (hflight : post.stage.isInFlight = true) (hu : Settling s k post reply u)
    (hq : u.quiet = true) :
    u.refreshPromise = none ∧ u.calls = s.calls.map (ApiCall.settle k reply) ∧
      u.storage = (reply.pair.elim .empty fun tokens => ⟨some tokens.1, some tokens.2⟩) := by
  have hset (stage : Stage) :
      { post with stage := stage } ∈ (s.setStage k post stage).refreshes :=
    List.mem_set (List.getElem?_eq_some_iff.mp hpost).1 _
  cases hu with
  | arrived =>
    have hrunning := (Page.quiet_iff.mp hq).1 _ (hset (.arrived reply))
    cases hrunning
  | stored _ =>
    have hrunning := (Page.quiet_iff.mp hq).1 _ (hset (.stored reply))
    cases hrunning
  | settled hpromise hrefreshes hcalls htokens hfailed =>
    have hreply := settledReply_of_refreshes hpost hrefreshes
    have hidle {r : ApiCall} (hr : r ∈ u.calls) (hphase : r.phase = .waiting k) : False := by
      have hrunning := (Page.quiet_iff.mp hq).2 r hr
      unfold Page.isRunning at hrunning
      rw [hphase] at hrunning
      dsimp only at hrunning
      rw [hreply] at hrunning
      cases hrunning
    refine ⟨hpromise, Pool.forall₂_eq_map hcalls fun r r' hr' hbetween => ?_, ?_⟩
    · cases hbetween with
      | same =>
        unfold ApiCall.settle
        rw [if_neg (hidle hr')]
      | calling _ _ =>
        have hrunning := (Page.quiet_iff.mp hq).2 _ hr'
        cases hrunning
      | done _ => rfl
    · cases htoken : reply.accessToken with
      | some newToken =>
        obtain ⟨refreshToken, rfl⟩ := Reply.exists_tokens htoken
        exact htokens rfl
      | none =>
        have hpair : reply.pair = none := by
          cases reply with
          | tokens _ _ => cases htoken
          | revoked => rfl
          | failed => rfl
        rw [hpair]
        rcases hfailed htoken with hempty | ⟨_, hcalls⟩
        · exact hempty
        · -- some call has waited, and none does any more
          obtain ⟨r, hr, hphase⟩ := h.awaited (h.promise_of_inFlight ⟨post, hpost, hflight⟩)
          rw [← hcalls] at hr
          exact absurd hphase (hidle hr)

/-! ## The session goes on showing the page -/

variable {v : Session} {t : Tab} {p : Page}

theorem refreshCall_of_none (hpromise : p.refreshPromise = none) : p.refreshCall = none := by
  unfold Page.refreshCall
  rw [hpromise]
  rfl

theorem refreshCall_of_promise (hpromise : p.refreshPromise = some k)
    (hpost : p.refreshes[k]? = some post) : p.refreshCall = post.refreshCall := by
  unfold Page.refreshCall
  rw [hpromise]
  show p.refreshes[k]?.bind _ = _
  rw [hpost]
  rfl

/-- A request is sent: it passes the request interceptor before anything else happens. -/
theorem shows_request {url : String} (h : Shows s v)
    (hexec : Run.exec Tab.step s [.call url none, .dispatch s.calls.length] = some t) :
    Shows t v.request := by
  have hcall : (s.call url none).calls[s.calls.length]? =
      some ⟨url, false, none, .calling, [], none⟩ := List.getElem?_concat_length
  have ht : (s.call url none).dispatch s.calls.length ⟨url, false, none, .calling, [], none⟩ =
      t := by
    simpa [Tab.step, hcall] using hexec
  rw [← ht]
  refine ⟨h.storage, h.refreshPromise, ?_⟩
  have hset (r r' : ApiCall) : (s.calls ++ [r]).set s.calls.length r' = s.calls ++ [r'] := by
    rw [List.set_append_right _ _ (Nat.le_refl _), Nat.sub_self]
    rfl
  show v.requests ++ [_] = ((s.calls ++ [_]).set s.calls.length _).map ApiCall.request
  rw [hset, List.map_append, h.requests, h.storage]
  simp [ApiCall.request, Tab.call]

/-- In a quiet page `refreshPromise` is a refresh in flight. -/
theorem exists_refreshCall (hinv : Inv s n) (hq : s.quiet = true)
    (hpromise : s.refreshPromise = some k) : ∃ call, s.refreshCall = some call := by
  obtain ⟨post, hpost, hunsettled⟩ := hinv.unsettled hpromise
  rw [refreshCall_of_promise hpromise hpost]
  have hrunning := (Page.quiet_iff.mp hq).1 post (List.mem_of_getElem? hpost)
  unfold RefreshPost.refreshCall
  cases hstage : post.stage with
  | inFlight reply =>
    cases reply with
    | none => exact ⟨_, rfl⟩
    | some reply => exact ⟨_, rfl⟩
  | settled reply =>
    rw [hstage] at hunsettled
    cases hunsettled
  | _ =>
    rw [hstage] at hrunning
    cases hrunning

/-- One call goes on, in the page as in the session. -/
theorem Shows.requests_set (h : Shows s v) (i : ℕ) (r : ApiCall) :
    v.requests.set i r.request = (s.calls.set i r).map ApiCall.request := by
  rw [h.requests, List.map_set]

theorem shows_setCall {r' : ApiRequest} (h : Shows s v) (hr : r.request = r') :
    Shows (s.setCall i r) { v with requests := v.requests.set i r' } := by
  refine ⟨h.storage, h.refreshPromise, ?_⟩
  rw [← hr]
  exact h.requests_set i r

/-- A request is answered. -/
theorem shows_response {status : Option ℕ} (h : Shows s v) (hinv : Inv s n)
    (hq : s.quiet = true) (hauth : r.isAuth = false) :
    Shows (s.response i r status) (v.response i r.request status) := by
  unfold Tab.response Session.response
  split
  · rename_i hstatus
    rw [if_neg]
    · exact shows_setCall h rfl
    · rintro ⟨rfl, _⟩
      cases hstatus
  · rw [if_neg (by rw [hauth]; exact Bool.false_ne_true)]
    show Shows (if status = some 401 ∧ ! r.retry then _ else _)
      (if status = some 401 ∧ ! r.retry then _ else _)
    split
    · unfold Tab.refresh
      -- both sides look for a promise first, and then for a refresh token
      split
      · rename_i k hpromise
        obtain ⟨call, hcall⟩ := exists_refreshCall hinv hq hpromise
        rw [← h.refreshPromise] at hcall
        split
        · exact shows_setCall h rfl
        · rename_i hnone
          rw [hcall] at hnone
          cases hnone
      · rename_i hpromise
        have hnone : v.refreshPromise = none :=
          h.refreshPromise.trans (refreshCall_of_none hpromise)
        have hstorage : v.storage.refreshToken = s.storage.refreshToken := by rw [h.storage]
        split
        · rename_i htoken
          split
          · rename_i hcall
            rw [hnone] at hcall
            cases hcall
          · split
            · refine ⟨rfl, h.refreshPromise, ?_⟩
              exact h.requests_set i { r with retry := true, phase := .rejected }
            · rename_i hsome
              rw [hstorage, htoken] at hsome
              cases hsome
        · rename_i refreshToken htoken
          split
          · rename_i hcall
            rw [hnone] at hcall
            cases hcall
          · split
            · rename_i hempty
              rw [hstorage, htoken] at hempty
              cases hempty
            · rename_i refreshToken' hsome
              obtain rfl : refreshToken = refreshToken' := by
                rw [hstorage, htoken] at hsome
                exact Option.some.inj hsome
              have hpost : (s.post i r refreshToken).refreshes[s.refreshes.length]? =
                  some ⟨refreshToken, .inFlight none⟩ := List.getElem?_concat_length
              refine ⟨h.storage, (refreshCall_of_promise rfl hpost).symm, ?_⟩
              exact h.requests_set i { r with retry := true, phase := .waiting s.refreshes.length,
                                              awaited := some s.refreshes.length }
    · exact shows_setCall h rfl

/-- A refresh is answered, or its answer is lost. -/
theorem shows_reply (h : Shows s v) (hinv : Inv s n) (hreply : s.reply k reply = some p) :
    Shows ⟨p, s.storage⟩ { v with refreshPromise := some (.answered reply.pair) } := by
  obtain ⟨post, prior, hpost, hstage, _, rfl⟩ := Page.reply_eq_some hreply
  have hpromise := hinv.promise_of_inFlight ⟨post, hpost, by rw [hstage]; rfl⟩
  refine ⟨h.storage, ?_, h.requests⟩
  have hpost' := (Page.getElem?_setStage hpost k (.inFlight reply)).trans (if_pos rfl)
  exact (refreshCall_of_promise (p := s.toPage.setStage k post _) hpromise hpost').symm

/-- The end of a refresh, for one call. -/
theorem request_settle (h : r.phase.isOut = false → r.phase = .waiting k) :
    (r.settle k reply).request = Session.ApiRequest.resume r.request reply.accessToken := by
  by_cases hphase : r.phase = .waiting k
  · have hwaiting : r.request.phase = .waiting := by
      unfold ApiCall.request
      rw [hphase]
    unfold Session.ApiRequest.resume
    rw [if_pos hwaiting]
    cases htoken : reply.accessToken with
    | none =>
      rw [settle_of_none hphase htoken]
      rfl
    | some newToken =>
      rw [settle_of_token hphase htoken]
      rfl
  · have hout : r.phase.isOut = true := by
      by_contra hout
      exact hphase (h (Bool.not_eq_true _ ▸ hout))
    have hnot : ¬ r.request.phase = .waiting := by
      unfold ApiCall.request
      cases hr : r.phase <;> simp_all [CallPhase.isOut]
    unfold ApiCall.settle Session.ApiRequest.resume
    rw [if_neg hphase, if_neg hnot]

/-- The answer to a refresh has arrived, and all callbacks have run, in whatever order. -/
theorem shows_refreshed {callbacks : List TabEvent} (h : Shows s v) (hinv : Inv s n)
    (hq : s.quiet = true) (harrive : s.step (.arrive k) = some u)
    (hall : ∀ ev ∈ callbacks, ev.isCallback = true)
    (hexec : Run.exec Tab.step u callbacks = some t) (hquiet : t.quiet = true) :
    ∃ tokens, v.refreshPromise = some (.answered tokens) ∧ Shows t (v.refreshed tokens) := by
  cases Tab.step_cases harrive with
  | @arrive _ post reply hpost hstage _ =>
    have hflight : post.stage.isInFlight = true := by
      rw [hstage]
      rfl
    have hsettling : Settling s k post reply t :=
      Settling.arrived.exec hinv hq hpost hflight hall hexec
    obtain ⟨hpromise, hcalls, hstorage⟩ := hsettling.of_quiet hinv hpost hflight hquiet
    have hpromise' := hinv.promise_of_inFlight ⟨post, hpost, hflight⟩
    refine ⟨reply.pair, ?_, ?_⟩
    · rw [h.refreshPromise, refreshCall_of_promise hpromise' hpost]
      unfold RefreshPost.refreshCall
      rw [hstage]
    · have hrequests : t.calls.map ApiCall.request = v.requests.map fun r =>
          Session.ApiRequest.resume r reply.accessToken := by
        rw [hcalls, h.requests, List.map_map, List.map_map]
        exact List.map_congr_left fun r hr => request_settle fun hout =>
          phase_of_inFlight hinv hq ⟨post, hpost, hflight⟩ hr hout
      have hwaits : v.requests.any (·.phase = .waiting) = true := by
        obtain ⟨r, hr, hphase⟩ := hinv.awaited hpromise'
        rw [h.requests, List.any_map, List.any_eq_true]
        refine ⟨r, hr, ?_⟩
        show decide (r.request.phase = .waiting) = true
        unfold ApiCall.request
        rw [hphase]
        rfl
      cases hreply : reply with
      | tokens accessToken refreshToken =>
        rw [hreply] at hrequests hstorage
        exact ⟨hstorage.symm, (refreshCall_of_none hpromise).symm, hrequests.symm⟩
      | _ =>
        rw [hreply] at hrequests hstorage
        refine ⟨?_, (refreshCall_of_none hpromise).symm, hrequests.symm⟩
        rw [hstorage]
        exact if_pos hwaits

end

end Frontend
end LeadPulse
