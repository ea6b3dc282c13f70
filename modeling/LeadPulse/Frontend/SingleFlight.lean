import LeadPulse.Frontend.Page

/-!
# One refresh at a time

A single tab: its page, and the tokens that a server issues by counting. Whatever a server does
with a refresh (accept, refuse, not answer), and whenever the answers to the requests of the
application arrive, `refreshPromise` makes the refreshes of the page come one after the other.

The invariant is about the last promise. It is the only one that may not be settled, and the only
one that calls still wait for; while it is not settled `refreshPromise` is set; and a token in the
storage has been posted only if it is about to be replaced or removed.
-/

namespace LeadPulse
namespace Frontend

structure OneTab where
  tab : Tab
  /-- The number of the next token. -/
  nextToken : ℕ
deriving DecidableEq, Repr

inductive OneTabEvent where
  | tab (ev : TabEvent)
  /-- The server exchanges the token of a refresh. -/
  | accept (k : ℕ)
  | refuse (k : ℕ)
  /-- A refresh ends with another error, or is not answered. -/
  | lose (k : ℕ)
  /-- `loginFromCallback`. -/
  | login
  | logout
deriving DecidableEq, Repr

namespace OneTab

/-- A page that is loaded with what is in the storage. -/
def load (storage : LocalStorage) : OneTab where
  tab := ⟨.load, storage⟩
  nextToken := storage.accessToken.getD 0 + storage.refreshToken.getD 0 + 1

def login (s : OneTab) : OneTab where
  tab := { s.tab with storage := ⟨some s.nextToken, some (s.nextToken + 1)⟩ }
  nextToken := s.nextToken + 2

/-- The request to revoke the tokens has the access token in its header. -/
def logout (s : OneTab) : OneTab :=
  let cleared := { s.tab with storage := .empty }
  { s with tab := match s.tab.storage.accessToken with
      | none => cleared
      | some accessToken => cleared.call "/api/v1/auth/logout" (some accessToken) }

def reply (s : OneTab) (k : ℕ) (reply : Reply) : Option OneTab :=
  (s.tab.reply k reply).map fun page => { s with tab := ⟨page, s.tab.storage⟩ }

def step (s : OneTab) : OneTabEvent → Option OneTab
  | .tab ev => (s.tab.step ev).map fun tab => { s with tab := tab }
  | .accept k => (s.reply k (.tokens s.nextToken (s.nextToken + 1))).map fun s =>
      { s with nextToken := s.nextToken + 2 }
  | .refuse k => s.reply k .revoked
  | .lose k => s.reply k .failed
  | .login => if s.tab.quiet then some s.login else none
  | .logout => if s.tab.quiet then some s.logout else none

end OneTab

/-! ## The property -/

/-- A refresh has been posted, and its answer has not arrived. -/
def Page.InFlight (p : Page) (k : ℕ) : Prop :=
  ∃ post, p.refreshes[k]? = some post ∧ post.stage.isInFlight = true

/-- What has become of a call that awaits the promise `k`, or has awaited it. -/
structure SettledBy (p : Page) (k : ℕ) (r : ApiCall) : Prop where
  /-- Until the answer arrives, nothing. -/
  waits : p.InFlight k → r.phase = .waiting k ∧ ∃ first, r.sent = [first]
  /-- Then it is sent again with the new access token. -/
  resent : ∀ {reply newToken}, p.quiet = true → p.settledReply k = some reply →
    reply.accessToken = some newToken → ∃ first, r.sent = [first, some newToken]
  /-- Or it fails with its first error. -/
  rejected : ∀ {reply}, p.quiet = true → p.settledReply k = some reply →
    reply.accessToken = none → r.phase = .rejected ∧ ∃ first, r.sent = [first]

structure SingleFlight (s : Tab) : Prop where
  oneInFlight : ∀ {j k}, s.InFlight j → s.InFlight k → j = k
  postedOnce : (s.refreshes.map (·.refreshToken)).Nodup
  /-- Once by the application, and once more. -/
  resentOnce : ∀ r ∈ s.calls, r.sent.length ≤ 2
  /-- An error 401 during a refresh: the call awaits it. The errors of the endpoints that are not
  intercepted, and of calls that were sent again, are passed on. -/
  joins : ∀ {i k r s'}, s.InFlight k → s.calls[i]? = some r →
    s.step (.response i (some 401)) = some s' →
      if r.isAuth = true ∨ r.retry = true then s' = s.reject i r else s' = s.await i r k
  settledBy : ∀ r ∈ s.calls, ∀ {k}, r.awaited = some k → SettledBy s.toPage k r
  /-- After an answer there are finitely many callbacks to run. -/
  settles : ∃ callbacks t, (∀ ev ∈ callbacks, ev.isCallback = true) ∧
    Run.exec Tab.step s callbacks = some t ∧ t.quiet = true

/-! ## The invariant -/

/-- The refresh tokens that have been posted. -/
def Page.posted (p : Page) : List ℕ := p.refreshes.map (·.refreshToken)

/-- No callback has seen a reply. -/
def Stage.isPending : Stage → Bool
  | inFlight _ => true
  | arrived _ => true
  | _ => false

/-- The request is out, or the promise of the call is settled. -/
def CallPhase.isOut : CallPhase → Bool
  | sent => true
  | resolved => true
  | rejected => true
  | _ => false

/-- How far a call has got. -/
inductive Follows (p : Page) (r : ApiCall) : Prop
  | calling (hphase : r.phase = .calling) (hawaited : r.awaited = none) (hsent : r.sent = [])
  | once {first : Option ℕ} (hphase : r.phase.isOut = true) (hawaited : r.awaited = none)
    (hsent : r.sent = [first])
  | waiting {k : ℕ} {first : Option ℕ} (hphase : r.phase = .waiting k)
    (hawaited : r.awaited = some k) (hretry : r.retry = true) (hsent : r.sent = [first])
    (hlast : k + 1 = p.refreshes.length)
  | resuming {k newToken : ℕ} {first : Option ℕ} {reply : Reply} (hphase : r.phase = .calling)
    (hawaited : r.awaited = some k) (hretry : r.retry = true) (hsent : r.sent = [first])
    (hlast : k + 1 = p.refreshes.length) (hreply : p.settledReply k = some reply)
    (htoken : reply.accessToken = some newToken)
  | resent {k newToken : ℕ} {first : Option ℕ} {reply : Reply} (hphase : r.phase.isOut = true)
    (hawaited : r.awaited = some k) (hretry : r.retry = true)
    (hsent : r.sent = [first, some newToken]) (hreply : p.settledReply k = some reply)
    (htoken : reply.accessToken = some newToken)
  | gaveUp {k : ℕ} {first : Option ℕ} {reply : Reply} (hphase : r.phase = .rejected)
    (hawaited : r.awaited = some k) (hsent : r.sent = [first])
    (hreply : p.settledReply k = some reply) (htoken : reply.accessToken = none)

/-- The token in the storage is about to be replaced or removed. -/
def Tab.Spent (s : Tab) : Prop :=
  (∃ post ∈ s.refreshes, post.stage.isPending = true) ∨
    ∃ r ∈ s.calls, ∃ k reply, r.phase = .waiting k ∧ s.settledReply k = some reply ∧
      reply.accessToken = none

structure Inv (s : Tab) (n : ℕ) : Prop where
  /-- A promise that is not settled is `refreshPromise`. -/
  promise : ∀ {k post}, s.refreshes[k]? = some post → post.stage.settledReply = none →
    s.refreshPromise = some k
  unsettled : ∀ {k}, s.refreshPromise = some k →
    ∃ post, s.refreshes[k]? = some post ∧ post.stage.settledReply = none
  last : ∀ {k}, s.refreshPromise = some k → k + 1 = s.refreshes.length
  awaited : ∀ {k}, s.refreshPromise = some k → ∃ r ∈ s.calls, r.phase = .waiting k
  nodup : s.posted.Nodup
  posted_lt : ∀ t ∈ s.posted, t < n
  stored_lt : ∀ {t}, s.storage.refreshToken = some t → t < n
  fresh : ∀ post ∈ s.refreshes, ∀ {a t}, post.stage.unseenReply = some (.tokens a t) →
    t < n ∧ t ∉ s.posted
  spent : ∀ {t}, s.storage.refreshToken = some t → t ∈ s.posted → s.Spent
  /-- What `.then` has stored stays until the calls have been sent again. -/
  stored : ∀ post ∈ s.refreshes, ∀ {reply}, post.stage = .stored reply →
    ∃ newToken, reply.accessToken = some newToken ∧ s.storage.accessToken = some newToken
  header : ∀ r ∈ s.calls, ∀ {k reply newToken}, r.awaited = some k → r.phase.isOut = false →
    s.settledReply k = some reply → reply.accessToken = some newToken →
      s.storage.accessToken = some newToken
  follows : ∀ r ∈ s.calls, Follows s.toPage r

section

variable {s s' : Tab} {ev : TabEvent} {n n' i k : ℕ} {r r' : ApiCall} {post : RefreshPost}
  {stage : Stage}

theorem Follows.mono {p p' : Page} (h : Follows p r)
    (hlen : r.phase.isOut = false → p'.refreshes.length = p.refreshes.length)
    (hreply : ∀ {k reply}, p.settledReply k = some reply → p'.settledReply k = some reply) :
    Follows p' r := by
  cases h with
  | calling hphase hawaited hsent => exact .calling hphase hawaited hsent
  | once hphase hawaited hsent => exact .once hphase hawaited hsent
  | waiting hphase hawaited hretry hsent hlast =>
    refine .waiting hphase hawaited hretry hsent (hlast.trans (hlen ?_).symm)
    rw [hphase]
    rfl
  | resuming hphase hawaited hretry hsent hlast hsettled htoken =>
    refine .resuming hphase hawaited hretry hsent (hlast.trans (hlen ?_).symm) (hreply hsettled)
      htoken
    rw [hphase]
    rfl
  | resent hphase hawaited hretry hsent hsettled htoken =>
    exact .resent hphase hawaited hretry hsent (hreply hsettled) htoken
  | gaveUp hphase hawaited hsent hsettled htoken =>
    exact .gaveUp hphase hawaited hsent (hreply hsettled) htoken

/-- A call that is not out and awaits a promise awaits the last one. -/
theorem Follows.last {p : Page} (h : Follows p r) (hawaited : r.awaited = some k)
    (hout : r.phase.isOut = false) : k + 1 = p.refreshes.length := by
  cases h with
  | waiting _ hawaited' _ _ hlast =>
    rw [hawaited] at hawaited'
    rwa [Option.some.inj hawaited']
  | resuming _ hawaited' _ _ hlast _ _ =>
    rw [hawaited] at hawaited'
    rwa [Option.some.inj hawaited']
  | _ => simp_all [CallPhase.isOut]

theorem Follows.of_waiting {p : Page} (h : Follows p r) (hphase : r.phase = .waiting k) :
    r.awaited = some k ∧ r.retry = true ∧ ∃ first, r.sent = [first] := by
  cases h with
  | waiting hphase' hawaited hretry hsent _ =>
    rw [hphase] at hphase'
    cases hphase'
    exact ⟨hawaited, hretry, _, hsent⟩
  | _ => simp_all [CallPhase.isOut]

/-! ## The last promise -/

theorem settledReply_eq_none (hpost : s.refreshes[k]? = some post)
    (hstage : post.stage.settledReply = none) : s.settledReply k = none := by
  unfold Page.settledReply
  rw [hpost]
  exact hstage

/-- Only one promise is not settled. -/
theorem Inv.unique {j : ℕ} {post' : RefreshPost} (h : Inv s n) (hpost : s.refreshes[k]? = some post)
    (hstage : post.stage.settledReply = none) (hpost' : s.refreshes[j]? = some post')
    (hstage' : post'.stage.settledReply = none) : j = k ∧ post' = post := by
  have hk := h.promise hpost hstage
  rw [h.promise hpost' hstage'] at hk
  obtain rfl := Option.some.inj hk
  rw [hpost] at hpost'
  exact ⟨rfl, (Option.some.inj hpost').symm⟩

/-- While it is not settled, no call is to be sent again. -/
theorem Inv.settledReply_eq_none (h : Inv s n) (hpost : s.refreshes[k]? = some post)
    (hstage : post.stage.settledReply = none) {j : ℕ} (hr : r ∈ s.calls)
    (hawaited : r.awaited = some j) (hout : r.phase.isOut = false) : s.settledReply j = none := by
  have hlast := (h.follows r hr).last hawaited hout
  have hlast' := h.last (h.promise hpost hstage)
  obtain rfl : j = k := by omega
  exact Frontend.settledReply_eq_none hpost hstage

/-- In a quiet page no call is between two requests. -/
theorem phase_of_quiet (hq : s.quiet = true) (hr : r ∈ s.calls) (hf : Follows s.toPage r)
    (hout : r.phase.isOut = false) :
    ∃ k, r.phase = .waiting k ∧ s.settledReply k = none ∧ k + 1 = s.refreshes.length := by
  have hrun := (Page.quiet_iff.mp hq).2 r hr
  unfold Page.isRunning at hrun
  cases hphase : r.phase with
  | calling =>
    rw [hphase] at hrun
    cases hrun
  | waiting k =>
    rw [hphase] at hrun
    exact ⟨k, rfl, by simpa using hrun, hf.last (hf.of_waiting hphase).1 hout⟩
  | _ =>
    rw [hphase] at hout
    cases hout

/-- A quiet page without a promise has nothing to wait for. -/
theorem Inv.isOut_of_idle (h : Inv s n) (hq : s.quiet = true) (hpromise : s.refreshPromise = none)
    (hr : r ∈ s.calls) : r.phase.isOut = true := by
  by_contra hout
  rw [Bool.not_eq_true] at hout
  obtain ⟨k, _, hsettled, hlast⟩ := phase_of_quiet hq hr (h.follows r hr) hout
  have hlt : k < s.refreshes.length := by omega
  have hpost : s.refreshes[k]? = some s.refreshes[k] := List.getElem?_eq_getElem hlt
  unfold Page.settledReply at hsettled
  rw [hpost] at hsettled
  rw [h.promise hpost hsettled] at hpromise
  cases hpromise

theorem settledReply_of_isPending (h : stage.isPending = true) : stage.settledReply = none := by
  cases stage with
  | inFlight reply => rfl
  | arrived reply => rfl
  | _ => cases h

theorem Inv.not_spent_of_idle (h : Inv s n) (hq : s.quiet = true)
    (hpromise : s.refreshPromise = none) : ¬ s.Spent := by
  rintro (⟨post, hmem, hpending⟩ | ⟨r, hr, k, reply, hphase, _⟩)
  · obtain ⟨k, hpost⟩ := List.mem_iff_getElem?.mp hmem
    rw [h.promise hpost (settledReply_of_isPending hpending)] at hpromise
    cases hpromise
  · have hout := h.isOut_of_idle hq hpromise hr
    rw [hphase] at hout
    cases hout

/-! ## The storage and the calls -/

/-- The storage changes while nothing depends on what is in it. -/
theorem Inv.storage {storage : LocalStorage} (h : Inv s n) (hn : n ≤ n')
    (htoken : ∀ t, storage.refreshToken = some t → t < n' ∧ t ∉ s.posted)
    (hstored : ∀ post ∈ s.refreshes, ∀ reply, post.stage ≠ .stored reply)
    (hheader : ∀ r ∈ s.calls, ∀ {k reply newToken}, r.awaited = some k → r.phase.isOut = false →
      s.settledReply k = some reply → reply.accessToken = some newToken → False) :
    Inv { s with storage := storage } n' where
  promise := h.promise
  unsettled := h.unsettled
  last := h.last
  awaited := h.awaited
  nodup := h.nodup
  posted_lt := fun t ht => Nat.lt_of_lt_of_le (h.posted_lt t ht) hn
  stored_lt := fun ht => (htoken _ ht).1
  fresh := fun post hpost _ _ hreply =>
    ⟨Nat.lt_of_lt_of_le (h.fresh post hpost hreply).1 hn, (h.fresh post hpost hreply).2⟩
  spent := fun ht hposted => absurd hposted (htoken _ ht).2
  stored := fun post hpost _ hstage => absurd hstage (hstored post hpost _)
  header := fun r hr _ _ _ hawaited hout hreply htoken =>
    (hheader r hr hawaited hout hreply htoken).elim
  follows := h.follows

theorem empty_fresh (t : ℕ) (ht : LocalStorage.empty.refreshToken = some t) :
    t < n ∧ t ∉ s.posted := by
  cases ht

theorem Inv.storage_of_quiet {storage : LocalStorage} (h : Inv s n) (hq : s.quiet = true)
    (hn : n ≤ n') (htoken : ∀ t, storage.refreshToken = some t → t < n' ∧ t ∉ s.posted) :
    Inv { s with storage := storage } n' := by
  refine h.storage hn htoken (fun post hpost reply hstage => ?_) ?_
  · have hrun := (Page.quiet_iff.mp hq).1 post hpost
    rw [hstage] at hrun
    cases hrun
  · intro r hr k reply newToken hawaited hout hreply _
    obtain ⟨j, hphase, hsettled, _⟩ := phase_of_quiet hq hr (h.follows r hr) hout
    rw [((h.follows r hr).of_waiting hphase).1] at hawaited
    obtain rfl := Option.some.inj hawaited
    rw [hsettled] at hreply
    cases hreply

/-- One call goes on. If it stops waiting, its promise is settled, and the storage will not be
removed because of it. -/
theorem Inv.setCall (h : Inv s n) (hr : s.calls[i]? = some r) (hf : Follows s.toPage r')
    (hkeep : ∀ k, r.phase = .waiting k → r'.phase = .waiting k ∨ ∃ reply,
      s.settledReply k = some reply ∧ (reply.accessToken = none → s.storage.refreshToken = none))
    (hheader : ∀ {k reply newToken}, r'.awaited = some k → r'.phase.isOut = false →
      s.settledReply k = some reply → reply.accessToken = some newToken →
        s.storage.accessToken = some newToken) :
    Inv (s.setCall i r') n where
  promise := h.promise
  unsettled := h.unsettled
  last := h.last
  awaited := by
    intro k hpromise
    refine Pool.exists_set (h.awaited hpromise) hr fun hphase => ?_
    rcases hkeep k hphase with hphase' | ⟨reply, hreply, _⟩
    · exact hphase'
    · -- the promise it has stopped waiting for is settled, and `refreshPromise` is not
      obtain ⟨post, hpost, hstage⟩ := h.unsettled hpromise
      rw [Frontend.settledReply_eq_none hpost hstage] at hreply
      cases hreply
  nodup := h.nodup
  posted_lt := h.posted_lt
  stored_lt := h.stored_lt
  fresh := h.fresh
  spent := by
    intro t ht hposted
    rcases h.spent ht hposted with hpending | hwaiting
    · exact .inl hpending
    · refine .inr (Pool.exists_set hwaiting hr ?_)
      rintro ⟨k, reply, hphase, hreply, hnone⟩
      refine ⟨k, reply, ?_, hreply, hnone⟩
      rcases hkeep k hphase with hphase' | ⟨reply', hreply', hempty⟩
      · exact hphase'
      · -- a call that has given up has left no token in the storage
        obtain rfl := Option.some.inj (hreply'.symm.trans hreply)
        cases ht.symm.trans (hempty hnone)
  stored := h.stored
  header := by
    intro r'' hr'' k reply newToken hawaited hout hreply htoken
    rcases List.mem_or_eq_of_mem_set hr'' with hmem | rfl
    · exact h.header r'' hmem hawaited hout hreply htoken
    · exact hheader hawaited hout hreply htoken
  follows := fun r'' hr'' =>
    (Pool.Each.set (P := Follows s.toPage) h.follows hf r'' hr'').mono (fun _ => rfl) fun h => h

/-- A call that is out goes on. -/
theorem Inv.setCall_of_sent (h : Inv s n) (hr : s.calls[i]? = some r) (hphase : r.phase = .sent)
    (hf : Follows s.toPage r') (hout : r'.phase.isOut = true) :
    Inv (s.setCall i r') n := by
  refine h.setCall hr hf (fun k hwaiting => ?_) (fun _ hout' => ?_)
  · rw [hphase] at hwaiting
    cases hwaiting
  · rw [hout] at hout'
    cases hout'

theorem Inv.call (h : Inv s n) (url : String) (authorization : Option ℕ) :
    Inv (s.call url authorization) n where
  promise := h.promise
  unsettled := h.unsettled
  last := h.last
  awaited := by
    intro k hpromise
    obtain ⟨r, hr, hphase⟩ := h.awaited hpromise
    exact ⟨r, List.mem_append_left _ hr, hphase⟩
  nodup := h.nodup
  posted_lt := h.posted_lt
  stored_lt := h.stored_lt
  fresh := h.fresh
  spent := by
    intro t ht hposted
    rcases h.spent ht hposted with hpending | ⟨r, hr, hwaiting⟩
    · exact .inl hpending
    · exact .inr ⟨r, List.mem_append_left _ hr, hwaiting⟩
  stored := h.stored
  header := by
    intro r hr k reply newToken hawaited
    rcases List.mem_append.mp hr with hr | hr
    · exact h.header r hr hawaited
    · rw [List.mem_singleton.mp hr] at hawaited
      cases hawaited
  follows := fun r hr => by
    refine (Pool.Each.append (P := Follows s.toPage) h.follows ?_ r hr).mono (fun _ => rfl)
      fun h => h
    exact .calling rfl rfl rfl

/-! ## The stages of a refresh -/

theorem posted_setStage (hpost : s.refreshes[k]? = some post) :
    (s.setStage k post stage).posted = s.posted := by
  obtain ⟨hlt, rfl⟩ := List.getElem?_eq_some_iff.mp hpost
  show (s.refreshes.set k _).map _ = s.refreshes.map _
  rw [List.map_set]
  -- the token in its place is the one of the post
  have hlt' : k < (s.refreshes.map (·.refreshToken)).length := by rwa [List.length_map]
  have hself := List.set_getElem_self hlt'
  rwa [List.getElem_map] at hself

theorem settledReply_of_setStage {j : ℕ} {reply : Reply} (hpost : s.refreshes[k]? = some post)
    (h : (s.setStage k post stage).settledReply j = some reply) :
    (j = k ∧ stage.settledReply = some reply) ∨ s.settledReply j = some reply := by
  have hget : (s.setStage k post stage).refreshes[j]? = _ := Page.getElem?_setStage hpost j stage
  unfold Page.settledReply at h
  rw [hget] at h
  split at h
  · exact .inl ⟨Eq.symm ‹_›, h⟩
  · exact .inr h

theorem follows_setStage (h : Inv s n) (hpost : s.refreshes[k]? = some post)
    (hstage : post.stage.settledReply = none) (hr : r ∈ s.calls) :
    Follows (s.setStage k post stage).toPage r :=
  (h.follows r hr).mono (fun _ => List.length_set) (Page.settledReply_setStage hpost hstage)

theorem mem_setStage {post' : RefreshPost} (h : post' ∈ (s.setStage k post stage).refreshes) :
    post' ∈ s.refreshes ∨ post' = { post with stage := stage } :=
  List.mem_or_eq_of_mem_set h

/-- A promise that is not settled gets one stage further: what is to be shown about the storage. -/
theorem Inv.setStage {storage : LocalStorage} (h : Inv s n) (hpost : s.refreshes[k]? = some post)
    (hstage : post.stage.settledReply = none) (hstage' : stage.settledReply = none) (hn : n ≤ n')
    (hfresh : ∀ {a t}, stage.unseenReply = some (.tokens a t) → t < n' ∧ t ∉ s.posted)
    (hlt : ∀ {t}, storage.refreshToken = some t → t < n')
    (hspent : ∀ {t}, storage.refreshToken = some t → t ∈ s.posted → s.Spent ∧ stage.isPending)
    (hstored : ∀ post' ∈ (s.setStage k post stage).refreshes, ∀ {reply},
      post'.stage = .stored reply → ∃ newToken, reply.accessToken = some newToken ∧
        storage.accessToken = some newToken)
    (haccess : storage.accessToken = s.storage.accessToken ∨ ∀ r ∈ s.calls, ∀ {j},
      r.awaited = some j → r.phase.isOut = false → s.settledReply j = none) :
    Inv { s.setStage k post stage with storage := storage } n' := by
  have hget := fun j => Page.getElem?_setStage hpost j stage
  have hposted : (s.setStage k post stage).posted = s.posted := posted_setStage hpost
  constructor
  · intro j post' hpost' hunsettled
    rw [show (s.setStage k post stage).refreshes[j]? = _ from hget j] at hpost'
    split at hpost'
    · rename_i hkj
      rw [← hkj]
      exact h.promise hpost hstage
    · exact h.promise hpost' hunsettled
  · intro j hpromise
    by_cases hkj : k = j
    · exact ⟨{ post with stage := stage }, (hget j).trans (if_pos hkj), hstage'⟩
    · obtain ⟨post', hpost', hunsettled⟩ := h.unsettled hpromise
      exact ⟨post', (hget j).trans ((if_neg hkj).trans hpost'), hunsettled⟩
  · intro j hpromise
    exact (h.last hpromise).trans List.length_set.symm
  · exact h.awaited
  · rw [hposted]
    exact h.nodup
  · intro t ht
    rw [hposted] at ht
    exact Nat.lt_of_lt_of_le (h.posted_lt t ht) hn
  · exact hlt
  · intro post' hpost' a t hunseen
    rw [hposted]
    rcases mem_setStage hpost' with hpost' | rfl
    · have hold := h.fresh post' hpost' hunseen
      exact ⟨Nat.lt_of_lt_of_le hold.1 hn, hold.2⟩
    · exact hfresh hunseen
  · intro t ht hmem
    rw [hposted] at hmem
    obtain ⟨hspent, hpending⟩ := hspent ht hmem
    rcases hspent with hpost' | ⟨r, hr, j, reply, hphase, hreply, hnone⟩
    · exact .inl (Pool.exists_set hpost' hpost fun _ => hpending)
    · exact .inr ⟨r, hr, j, reply, hphase, Page.settledReply_setStage hpost hstage hreply, hnone⟩
  · exact hstored
  · intro r hr j reply newToken hawaited hout hreply htoken
    rcases settledReply_of_setStage hpost hreply with ⟨_, hsettled⟩ | hsettled
    · rw [hstage'] at hsettled
      cases hsettled
    · rcases haccess with haccess | haccess
      · exact haccess.trans (h.header r hr hawaited hout hsettled htoken)
      · rw [haccess r hr hawaited hout] at hsettled
        cases hsettled
  · exact fun r hr => (follows_setStage h hpost hstage hr).mono (fun _ => rfl) fun h => h

/-- Something happens to a reply that no callback has seen. -/
theorem Inv.setStage_pending (h : Inv s n) (hpost : s.refreshes[k]? = some post)
    (hpending : post.stage.isPending = true) (hpending' : stage.isPending = true) (hn : n ≤ n')
    (hfresh : ∀ {a t}, stage.unseenReply = some (.tokens a t) → t < n' ∧ t ∉ s.posted) :
    Inv (s.setStage k post stage) n' := by
  refine h.setStage hpost (settledReply_of_isPending hpending)
    (settledReply_of_isPending hpending') hn hfresh (fun ht => ?_) (fun ht hposted => ?_) ?_
    (.inl rfl)
  · exact Nat.lt_of_lt_of_le (h.stored_lt ht) hn
  · exact ⟨h.spent ht hposted, hpending'⟩
  · intro post' hpost' reply hstored
    rcases mem_setStage hpost' with hpost' | rfl
    · exact h.stored post' hpost' hstored
    · have hstored : stage = .stored reply := hstored
      rw [hstored] at hpending'
      cases hpending'

/-- `.then` puts tokens into the storage that nobody has posted. -/
theorem Inv.store {accessToken refreshToken : ℕ} (h : Inv s n)
    (hpost : s.refreshes[k]? = some post)
    (hstage : post.stage = .arrived (.tokens accessToken refreshToken)) :
    Inv { s.setStage k post (.stored (.tokens accessToken refreshToken)) with
          storage := ⟨some accessToken, some refreshToken⟩ } n := by
  have hunsettled : post.stage.settledReply = none := by rw [hstage]; rfl
  obtain ⟨hlt, hnew⟩ := h.fresh post (List.mem_of_getElem? hpost) (a := accessToken)
    (t := refreshToken) (by rw [hstage]; rfl)
  refine h.setStage hpost hunsettled rfl (Nat.le_refl n) (fun hunseen => ?_) (fun ht => ?_)
    (fun ht hposted => ?_) ?_ (.inr fun r hr _ hawaited hout => ?_)
  · cases hunseen
  · obtain rfl := Option.some.inj ht
    exact hlt
  · obtain rfl := Option.some.inj ht
    exact absurd hposted hnew
  · intro post' hpost' reply hstored
    rcases mem_setStage hpost' with hpost' | rfl
    · -- no other promise is unsettled
      obtain ⟨j, hj⟩ := List.mem_iff_getElem?.mp hpost'
      obtain ⟨_, rfl⟩ := h.unique hpost hunsettled hj (by rw [hstored]; rfl)
      rw [hstage] at hstored
      cases hstored
    · cases hstored
      exact ⟨accessToken, rfl, rfl⟩
  · exact h.settledReply_eq_none hpost hunsettled hr hawaited hout

/-- `.finally`: the calls that wait will find the new token in the storage, or remove it. -/
theorem Inv.clear {reply : Reply} (h : Inv s n) (hpost : s.refreshes[k]? = some post)
    (hstage : post.stage = .stored reply ∨ post.stage = .arrived reply ∧ reply.accessToken = none) :
    Inv { s.setStage k post (.settled reply) with refreshPromise := none } n := by
  have hunsettled : post.stage.settledReply = none := by
    rcases hstage with hstage | hstage
    · rw [hstage]
      rfl
    · rw [hstage.1]
      rfl
  have hpromise := h.promise hpost hunsettled
  have hposted : (s.setStage k post (.settled reply)).posted = s.posted := posted_setStage hpost
  have hsettled : (s.setStage k post (.settled reply)).settledReply k = some reply :=
    Page.settledReply_eq_some_iff.mpr ⟨{ post with stage := .settled reply },
      (Page.getElem?_setStage hpost k _).trans (if_pos rfl), rfl⟩
  constructor
  · intro j post' hpost' hunsettled'
    have hpost' : (s.setStage k post (.settled reply)).refreshes[j]? = some post' := hpost'
    rw [show (s.setStage k post (.settled reply)).refreshes[j]? = _ from
      Page.getElem?_setStage hpost j _] at hpost'
    split at hpost'
    · cases hpost'
      cases hunsettled'
    · -- it was the only promise that was not settled
      rename_i hkj
      exact absurd (h.unique hpost hunsettled hpost' hunsettled').1.symm hkj
  · intro j hnone
    cases hnone
  · intro j hnone
    cases hnone
  · intro j hnone
    cases hnone
  · exact hposted ▸ h.nodup
  · exact hposted ▸ h.posted_lt
  · exact h.stored_lt
  · intro post' hpost' a t hunseen
    rcases mem_setStage hpost' with hpost' | rfl
    · exact hposted ▸ h.fresh post' hpost' hunseen
    · cases hunseen
  · intro t ht hmem
    have hmem : t ∈ (s.setStage k post (.settled reply)).posted := hmem
    rw [hposted] at hmem
    right
    rcases h.spent ht hmem with ⟨post', hpost', hpending⟩ |
      ⟨r, hr, j, reply', hphase, hreply, hnone⟩
    · obtain ⟨j, hj⟩ := List.mem_iff_getElem?.mp hpost'
      obtain ⟨_, rfl⟩ := h.unique hpost hunsettled hj (settledReply_of_isPending hpending)
      rcases hstage with hstage | ⟨_, hnone⟩
      · rw [hstage] at hpending
        cases hpending
      · -- the refresh has failed: a call that awaits it will remove the token
        obtain ⟨r, hr, hphase⟩ := h.awaited hpromise
        exact ⟨r, hr, k, reply, hphase, hsettled, hnone⟩
    · exact ⟨r, hr, j, reply', hphase, Page.settledReply_setStage hpost hunsettled hreply, hnone⟩
  · intro post' hpost' reply' hstored
    rcases mem_setStage hpost' with hpost' | rfl
    · exact h.stored post' hpost' hstored
    · cases hstored
  · intro r hr j reply' newToken hawaited hout hreply htoken
    rcases settledReply_of_setStage hpost hreply with ⟨_, hsame⟩ | hreply
    · obtain rfl := Option.some.inj hsame
      rcases hstage with hstage | ⟨_, hnone⟩
      · -- `.then` has stored the token before
        obtain ⟨newToken', htoken', hstorage⟩ :=
          h.stored post (List.mem_of_getElem? hpost) hstage
        rw [htoken'] at htoken
        exact hstorage.trans htoken
      · rw [hnone] at htoken
        cases htoken
    · exact h.header r hr hawaited hout hreply htoken
  · exact fun r hr => (follows_setStage h hpost hunsettled hr).mono (fun _ => rfl) fun h => h

theorem posted_post (refreshToken : ℕ) :
    (s.post i r refreshToken).posted = s.posted ++ [refreshToken] := List.map_append

theorem length_post (refreshToken : ℕ) :
    (s.post i r refreshToken).refreshes.length = s.refreshes.length + 1 := List.length_append

/-- A refresh is posted by a page that waits for none. -/
theorem Inv.newPost {refreshToken : ℕ} {first : Option ℕ} (h : Inv s n)
    (hr : s.calls[i]? = some r) (hsent : r.sent = [first]) (hq : s.quiet = true)
    (hpromise : s.refreshPromise = none) (htoken : s.storage.refreshToken = some refreshToken) :
    Inv (s.post i r refreshToken) n := by
  have hlt := (List.getElem?_eq_some_iff.mp hr).1
  have hsettled : ∀ post ∈ s.refreshes, post.stage.settledReply ≠ none := by
    intro post hpost hnone
    obtain ⟨k, hk⟩ := List.mem_iff_getElem?.mp hpost
    rw [h.promise hk hnone] at hpromise
    cases hpromise
  -- a token that was posted before would have been replaced or removed by now
  have hnew : refreshToken ∉ s.posted :=
    fun hposted => h.not_spent_of_idle hq hpromise (h.spent htoken hposted)
  have hsplit : ∀ post ∈ s.refreshes ++ [⟨refreshToken, .inFlight none⟩],
      post ∈ s.refreshes ∨ post = ⟨refreshToken, .inFlight none⟩ := by
    intro post hpost
    rwa [List.mem_append, List.mem_singleton] at hpost
  constructor
  · intro k post hpost hunsettled
    have hpost : (s.refreshes ++ [⟨refreshToken, .inFlight none⟩])[k]? = some post := hpost
    rw [List.getElem?_append] at hpost
    split at hpost
    · exact absurd hunsettled (hsettled post (List.mem_of_getElem? hpost))
    · have hk := (List.getElem?_eq_some_iff.mp hpost).1
      rw [List.length_singleton] at hk
      have heq : s.refreshes.length = k := by omega
      exact congrArg some heq
  · intro k hk
    obtain rfl := Option.some.inj hk
    exact ⟨⟨refreshToken, .inFlight none⟩, List.getElem?_concat_length, rfl⟩
  · intro k hk
    obtain rfl := Option.some.inj hk
    exact (length_post refreshToken).symm
  · intro k hk
    obtain rfl := Option.some.inj hk
    exact ⟨_, List.mem_set hlt _, rfl⟩
  · rw [posted_post, List.nodup_append]
    refine ⟨h.nodup, by simp, fun t ht t' ht' heq => hnew ?_⟩
    rwa [← List.mem_singleton.mp ht', ← heq]
  · intro t ht
    rw [posted_post, List.mem_append] at ht
    rcases ht with ht | ht
    · exact h.posted_lt t ht
    · rw [List.mem_singleton.mp ht]
      exact h.stored_lt htoken
  · exact h.stored_lt
  · intro post hpost a t hunseen
    rcases hsplit post hpost with hpost | rfl
    · refine absurd ?_ (hsettled post hpost)
      cases hstage : post.stage with
      | settled reply =>
        rw [hstage] at hunseen
        cases hunseen
      | _ => rfl
    · cases hunseen
  · intro t _ _
    exact .inl ⟨_, List.mem_append_right _ (List.mem_singleton.mpr rfl), rfl⟩
  · intro post hpost reply hstored
    rcases hsplit post hpost with hpost | rfl
    · refine absurd ?_ (hsettled post hpost)
      rw [hstored]
      rfl
    · cases hstored
  · intro r' hr' k reply newToken hawaited hout hreply _
    rcases List.mem_or_eq_of_mem_set hr' with hr' | rfl
    · rw [h.isOut_of_idle hq hpromise hr'] at hout
      cases hout
    · obtain rfl := Option.some.inj hawaited
      obtain ⟨post, hpost, hstage⟩ := Page.settledReply_eq_some_iff.mp hreply
      obtain rfl := Option.some.inj (hpost.symm.trans List.getElem?_concat_length)
      cases hstage
  · intro r' hr'
    rcases List.mem_or_eq_of_mem_set hr' with hr' | rfl
    · refine (h.follows r' hr').mono (fun hout => ?_) (fun {k reply} hreply => ?_)
      · rw [h.isOut_of_idle hq hpromise hr'] at hout
        cases hout
      · obtain ⟨post, hpost, hstage⟩ := Page.settledReply_eq_some_iff.mp hreply
        refine Page.settledReply_eq_some_iff.mpr ⟨post, ?_, hstage⟩
        rw [← hpost]
        exact List.getElem?_append_left (List.getElem?_eq_some_iff.mp hpost).1
    · exact .waiting rfl rfl rfl hsent (length_post refreshToken).symm

/-! ## One event -/

theorem Follows.dispatch {p : Page} {token : Option ℕ} (h : Follows p r)
    (hphase : r.phase = .calling)
    (htoken : ∀ {k reply newToken}, r.awaited = some k → p.settledReply k = some reply →
      reply.accessToken = some newToken → token = some newToken) :
    Follows p { r with authorization := token, phase := .sent, sent := r.sent ++ [token] } := by
  cases h with
  | calling _ hawaited hsent =>
    have hsent' : r.sent ++ [token] = [token] := by
      rw [hsent]
      rfl
    exact .once rfl hawaited hsent'
  | @resuming k newToken first reply _ hawaited hretry hsent hlast hreply hnew =>
    have hsent' : r.sent ++ [token] = [first, some newToken] := by
      rw [hsent, htoken hawaited hreply hnew]
      rfl
    exact .resent rfl hawaited hretry hsent' hreply hnew
  | _ => simp_all [CallPhase.isOut]

/-- A request that is out has been sent once, or once more. -/
theorem Follows.of_sent {p : Page} (h : Follows p r) (hphase : r.phase = .sent) :
    (r.awaited = none ∧ ∃ first, r.sent = [first]) ∨
      r.retry = true ∧ ∃ k first newToken reply, r.awaited = some k ∧
        r.sent = [first, some newToken] ∧ p.settledReply k = some reply ∧
        reply.accessToken = some newToken := by
  cases h with
  | once _ hawaited hsent => exact .inl ⟨hawaited, _, hsent⟩
  | resent _ hawaited hretry hsent hreply htoken =>
    exact .inr ⟨hretry, _, _, _, _, hawaited, hsent, hreply, htoken⟩
  | _ => simp_all

theorem Follows.first_of_sent {p : Page} (h : Follows p r) (hphase : r.phase = .sent)
    (hretry : r.retry = false) : r.awaited = none ∧ ∃ first, r.sent = [first] := by
  rcases h.of_sent hphase with hfirst | ⟨hagain, _⟩
  · exact hfirst
  · rw [hretry] at hagain
    cases hagain

theorem Follows.ended {p : Page} {phase : CallPhase} (h : Follows p r) (hphase : r.phase = .sent)
    (hend : phase = .resolved ∨ phase = .rejected) (retry : Bool)
    (hretry : r.retry = true → retry = true) :
    Follows p { r with retry := retry, phase := phase } := by
  have hout : phase.isOut = true := by rcases hend with rfl | rfl <;> rfl
  rcases h.of_sent hphase with ⟨hawaited, first, hsent⟩ |
    ⟨hagain, k, first, newToken, reply, hawaited, hsent, hreply, htoken⟩
  · exact .once hout hawaited hsent
  · exact .resent hout hawaited (hretry hagain) hsent hreply htoken

theorem Inv.move (h : Inv s n) (hm : Tab.Move s ev s') : Inv s' n := by
  cases hm with
  | call url authorization => exact h.call url authorization
  | @dispatch i r hr hphase =>
    have hmem := List.mem_of_getElem? hr
    refine h.setCall hr ((h.follows r hmem).dispatch hphase fun hawaited hreply htoken => ?_)
      (fun k hwaiting => ?_) (fun _ hout => ?_)
    · -- the interceptor finds what `.then` has stored
      have hstorage := h.header r hmem hawaited (by rw [hphase]; rfl) hreply htoken
      rw [hstorage]
      rfl
    · rw [hphase] at hwaiting
      cases hwaiting
    · cases hout
  | @ended i r status phase hr hq hphase hend =>
    refine h.setCall_of_sent hr hphase
      ((h.follows r (List.mem_of_getElem? hr)).ended hphase hend r.retry fun hretry => hretry) ?_
    rcases hend with rfl | rfl <;> rfl
  | @joined i k r hr hq hphase hretry hpromise =>
    obtain ⟨_, first, hsent⟩ := (h.follows r (List.mem_of_getElem? hr)).first_of_sent hphase hretry
    refine h.setCall hr (.waiting rfl rfl rfl hsent (h.last hpromise)) (fun j hwaiting => ?_)
      (fun hawaited _ hreply _ => ?_)
    · rw [hphase] at hwaiting
      cases hwaiting
    · obtain rfl := Option.some.inj hawaited
      obtain ⟨post, hpost, hunsettled⟩ := h.unsettled hpromise
      rw [Frontend.settledReply_eq_none hpost hunsettled] at hreply
      cases hreply
  | @loggedOut i r hr hq hphase hretry =>
    have hempty : Inv { s with storage := .empty } n :=
      h.storage_of_quiet hq (Nat.le_refl n) empty_fresh
    exact hempty.setCall_of_sent hr hphase
      ((hempty.follows r (List.mem_of_getElem? hr)).ended hphase (.inr rfl) true fun _ => rfl) rfl
  | @posted i refreshToken r hr hq hphase hretry hpromise htoken =>
    obtain ⟨_, first, hsent⟩ := (h.follows r (List.mem_of_getElem? hr)).first_of_sent hphase hretry
    exact h.newPost hr hsent hq hpromise htoken
  | @arrive k post reply hpost hstage hq =>
    refine h.setStage_pending hpost (by rw [hstage]; rfl) rfl (Nat.le_refl n) fun {a t} hreply => ?_
    have hunseen : post.stage.unseenReply = some (.tokens a t) := by
      rw [hstage]
      exact hreply
    exact h.fresh post (List.mem_of_getElem? hpost) hunseen
  | store hpost hstage => exact h.store hpost hstage
  | clear hpost hstage => exact h.clear hpost hstage
  | @resent i k newToken r reply hr hphase hreply htoken =>
    have hmem := List.mem_of_getElem? hr
    have hout : r.phase.isOut = false := by rw [hphase]; rfl
    obtain ⟨hawaited, hretry, first, hsent⟩ := (h.follows r hmem).of_waiting hphase
    have hlast := (h.follows r hmem).last hawaited hout
    refine h.setCall hr (.resuming rfl hawaited hretry hsent hlast hreply htoken)
      (fun j hwaiting => .inr ?_) (fun hawaited' _ hreply' htoken' => ?_)
    · rw [hphase] at hwaiting
      cases hwaiting
      refine ⟨reply, hreply, fun hnone => ?_⟩
      rw [hnone] at htoken
      cases htoken
    · exact h.header r hmem hawaited' hout hreply' htoken'
  | @gaveUp i k r reply hr hphase hreply htoken =>
    have hmem := List.mem_of_getElem? hr
    have hout : r.phase.isOut = false := by rw [hphase]; rfl
    obtain ⟨hawaited, hretry, first, hsent⟩ := (h.follows r hmem).of_waiting hphase
    have hlast := (h.follows r hmem).last hawaited hout
    have hempty : Inv { s with storage := .empty } n := by
      refine h.storage (Nat.le_refl n) empty_fresh (fun post hpost reply' hstored => ?_) ?_
      · -- the promise of the call is the last one
        obtain ⟨j, hj⟩ := List.mem_iff_getElem?.mp hpost
        rw [h.settledReply_eq_none hj (by rw [hstored]; rfl) hmem hawaited hout] at hreply
        cases hreply
      · intro r' hr' j reply' newToken hawaited' hout' hreply' htoken'
        have hlast' := (h.follows r' hr').last hawaited' hout'
        obtain rfl : j = k := by omega
        rw [hreply] at hreply'
        obtain rfl := Option.some.inj hreply'
        rw [htoken] at htoken'
        cases htoken'
    refine hempty.setCall hr (.gaveUp rfl hawaited hsent hreply htoken) (fun j hwaiting => .inr ?_)
      (fun _ hout' => ?_)
    · rw [hphase] at hwaiting
      cases hwaiting
      exact ⟨reply, hreply, fun _ => rfl⟩
    · cases hout'

/-! ## What the invariant says -/

theorem Inv.promise_of_inFlight (h : Inv s n) (hk : s.InFlight k) : s.refreshPromise = some k := by
  obtain ⟨post, hpost, hflight⟩ := hk
  refine h.promise hpost ?_
  cases hstage : post.stage with
  | inFlight reply => rfl
  | _ =>
    rw [hstage] at hflight
    cases hflight

theorem settledReply_of_inFlight (hk : s.InFlight k) : s.settledReply k = none := by
  obtain ⟨post, hpost, hflight⟩ := hk
  refine settledReply_eq_none hpost ?_
  cases hstage : post.stage with
  | inFlight reply => rfl
  | _ =>
    rw [hstage] at hflight
    cases hflight

theorem Inv.joins (h : Inv s n) (hk : s.InFlight k) (hr : s.calls[i]? = some r)
    (hs : s.step (.response i (some 401)) = some s') :
    if r.isAuth = true ∨ r.retry = true then s' = s.reject i r else s' = s.await i r k := by
  obtain ⟨r', hr', hs⟩ := Option.bind_eq_some_iff.mp hs
  obtain rfl := Option.some.inj (hr'.symm.trans hr)
  split at hs
  · cases hs
    unfold Tab.response Tab.refresh
    rw [h.promise_of_inFlight hk]
    cases hauth : r'.isAuth with
    | true => simp
    | false =>
      cases hretry : r'.retry with
      | true => simp
      | false => simp
  · cases hs

/-- In a quiet page, what a call has done whose promise is settled. -/
theorem Follows.of_settled {reply : Reply} (h : Follows s.toPage r) (hr : r ∈ s.calls)
    (hq : s.quiet = true) (hawaited : r.awaited = some k)
    (hreply : s.settledReply k = some reply) :
    (∃ first newToken, reply.accessToken = some newToken ∧ r.sent = [first, some newToken]) ∨
      reply.accessToken = none ∧ r.phase = .rejected ∧ ∃ first, r.sent = [first] := by
  have hout : r.phase.isOut = true := by
    by_contra hout
    rw [Bool.not_eq_true] at hout
    obtain ⟨j, hphase, hnone, _⟩ := phase_of_quiet hq hr h hout
    obtain rfl := Option.some.inj (hawaited.symm.trans (h.of_waiting hphase).1)
    rw [hreply] at hnone
    cases hnone
  cases h with
  | @resent k' newToken first reply' _ hawaited' _ hsent hreply' htoken =>
    obtain rfl := Option.some.inj (hawaited'.symm.trans hawaited)
    obtain rfl := Option.some.inj (hreply'.symm.trans hreply)
    exact .inl ⟨first, newToken, htoken, hsent⟩
  | @gaveUp k' first reply' hphase hawaited' hsent hreply' htoken =>
    obtain rfl := Option.some.inj (hawaited'.symm.trans hawaited)
    obtain rfl := Option.some.inj (hreply'.symm.trans hreply)
    exact .inr ⟨htoken, hphase, first, hsent⟩
  | _ => simp_all [CallPhase.isOut]

theorem Follows.settledBy (h : Follows s.toPage r) (hr : r ∈ s.calls)
    (hawaited : r.awaited = some k) : SettledBy s.toPage k r where
  waits := by
    intro hk
    have hnone := settledReply_of_inFlight hk
    cases h with
    | @waiting k' first hphase hawaited' _ hsent _ =>
      obtain rfl := Option.some.inj (hawaited'.symm.trans hawaited)
      exact ⟨hphase, first, hsent⟩
    | _ => simp_all
  resent := by
    intro reply newToken hq hreply htoken
    rcases h.of_settled hr hq hawaited hreply with ⟨first, newToken', htoken', hsent⟩ | ⟨hnone, _⟩
    · rw [← Option.some.inj (htoken'.symm.trans htoken)]
      exact ⟨first, hsent⟩
    · rw [hnone] at htoken
      cases htoken
  rejected := by
    intro reply hq hreply hnone
    rcases h.of_settled hr hq hawaited hreply with ⟨first, newToken, htoken, _⟩ | ⟨_, hrejected⟩
    · rw [hnone] at htoken
      cases htoken
    · exact hrejected

theorem Follows.length_sent {p : Page} (h : Follows p r) : r.sent.length ≤ 2 := by
  cases h with
  | calling _ _ hsent => simp [hsent]
  | once _ _ hsent => simp [hsent]
  | waiting _ _ _ hsent _ => simp [hsent]
  | resuming _ _ _ hsent _ _ _ => simp [hsent]
  | resent _ _ _ hsent _ _ => simp [hsent]
  | gaveUp _ _ hsent _ _ => simp [hsent]

theorem Inv.singleFlight (h : Inv s n) : SingleFlight s where
  oneInFlight hj hk := Option.some.inj
    ((h.promise_of_inFlight hj).symm.trans (h.promise_of_inFlight hk))
  postedOnce := h.nodup
  resentOnce r hr := (h.follows r hr).length_sent
  joins hk hr hs := h.joins hk hr hs
  settledBy r hr _ hawaited := (h.follows r hr).settledBy hr hawaited
  settles := s.exists_quiet

end

/-! ## Runs -/

theorem inv_load (storage : LocalStorage) :
    Inv (OneTab.load storage).tab (OneTab.load storage).nextToken where
  promise := by
    intro k post hpost
    cases hpost
  unsettled := by
    intro k hpromise
    cases hpromise
  last := by
    intro k hpromise
    cases hpromise
  awaited := by
    intro k hpromise
    cases hpromise
  nodup := List.nodup_nil
  posted_lt := by
    intro t ht
    cases ht
  stored_lt := by
    intro t ht
    have ht : storage.refreshToken = some t := ht
    show t < storage.accessToken.getD 0 + storage.refreshToken.getD 0 + 1
    rw [ht, Option.getD_some]
    omega
  fresh := by
    intro post hpost
    cases hpost
  spent := by
    intro t _ ht
    cases ht
  stored := by
    intro post hpost
    cases hpost
  header := by
    intro r hr
    cases hr
  follows := by
    intro r hr
    cases hr

variable {s s' : OneTab} {ev : OneTabEvent}

theorem inv_reply {k n' : ℕ} {reply : Reply} (h : Inv s.tab s.nextToken) (hn : s.nextToken ≤ n')
    (hfresh : ∀ {a t}, reply = .tokens a t → s.nextToken ≤ t ∧ t < n')
    (hs : s.reply k reply = some s') : Inv s'.tab n' ∧ s'.nextToken = s.nextToken := by
  obtain ⟨page, hpage, rfl⟩ := Option.map_eq_some_iff.mp hs
  obtain ⟨post, prior, hpost, hstage, _, rfl⟩ := Page.reply_eq_some hpage
  refine ⟨?_, rfl⟩
  refine h.setStage_pending hpost (by rw [hstage]; rfl) rfl hn fun {a t} hreply => ?_
  obtain ⟨hle, hlt⟩ := hfresh (Option.some.inj hreply)
  exact ⟨hlt, fun hposted => absurd (h.posted_lt t hposted) (Nat.not_lt.mpr hle)⟩

theorem inv_oneTab (h : Inv s.tab s.nextToken) (hs : s.step ev = some s') :
    Inv s'.tab s'.nextToken := by
  cases ev with
  | tab ev =>
    obtain ⟨tab, htab, rfl⟩ := Option.map_eq_some_iff.mp hs
    exact h.move (Tab.step_cases htab)
  | accept k =>
    obtain ⟨t, ht, rfl⟩ := Option.map_eq_some_iff.mp hs
    have hreply : Inv t.tab (s.nextToken + 2) ∧ t.nextToken = s.nextToken :=
      inv_reply h (by omega) (fun heq => by cases heq; omega) ht
    show Inv t.tab (t.nextToken + 2)
    rw [hreply.2]
    exact hreply.1
  | refuse k =>
    have hreply := inv_reply h (Nat.le_refl _) (fun heq => by cases heq) hs
    rw [hreply.2]
    exact hreply.1
  | lose k =>
    have hreply := inv_reply h (Nat.le_refl _) (fun heq => by cases heq) hs
    rw [hreply.2]
    exact hreply.1
  | login =>
    simp only [OneTab.step] at hs
    split at hs
    · rename_i hq
      cases hs
      show Inv { s.tab with storage := _ } (s.nextToken + 2)
      refine h.storage_of_quiet hq (by omega) fun t ht => ?_
      obtain rfl := Option.some.inj ht
      exact ⟨by omega, fun hposted => absurd (h.posted_lt _ hposted) (by omega)⟩
    · cases hs
  | logout =>
    simp only [OneTab.step] at hs
    split at hs
    · rename_i hq
      cases hs
      have hempty := h.storage_of_quiet hq (Nat.le_refl _) empty_fresh
      unfold OneTab.logout
      dsimp only
      split
      · exact hempty
      · exact hempty.call _ _
    · cases hs

/-- Refresh is single-flight, whatever the application, the network and the server do. -/
theorem refresh_singleFlight (storage : LocalStorage) (events : List OneTabEvent) :
    Run.AllStates OneTab.step (fun s => SingleFlight s.tab) (OneTab.load storage) events :=
  (Run.AllStates.of_step (I := fun s : OneTab => Inv s.tab s.nextToken)
    (fun _ _ _ h hs => inv_oneTab h hs) (inv_load storage) events).mono fun _ h => h.singleFlight

/-- Two calls with an expired token: one refresh, and both are sent again. -/
example : (Run.exec OneTab.step (OneTab.load ⟨some 0, some 1⟩)
    [.tab (.call "/api/v1/leads" none), .tab (.dispatch 0), .tab (.call "/api/v1/jobs" none),
     .tab (.dispatch 1), .tab (.response 0 (some 401)), .accept 0, .tab (.response 1 (some 401)),
     .tab (.arrive 0), .tab (.store 0), .tab (.clear 0), .tab (.resume 0), .tab (.resume 1),
     .tab (.dispatch 0), .tab (.dispatch 1)]).map
      (fun s => (s.tab.posted, s.tab.calls.map (·.sent))) =
    some ([1], [[some 0, some 2], [some 0, some 2]]) := by decide +kernel

end Frontend
end LeadPulse
