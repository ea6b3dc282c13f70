import LeadPulse.Frontend.Page

/-!
# Tabs that share a storage

Any number of pages over one `localStorage`, and the server of `/api/v1/auth/refresh`, which revokes
a refresh token when it accepts it. Each page has its own `refreshPromise`, so that two of them may
post the same token. The server refuses the second one, and the callback of a page whose refresh
has failed removes the tokens that are stored, whatever they are: `twoTabs_removed` is a run in
which the tokens that the first page has just been given are lost.

`sessionKept_of_storesAlone`: this does not happen as long as a page stores its new tokens only when
no other page still waits for a refresh with an older one, refused or not answered by the server.
-/

namespace LeadPulse
namespace Frontend

/-- What is noted when a callback removes the tokens after a failed refresh. -/
structure Removal where
  page : ℕ
  /-- The token of the refresh, and what came back. -/
  presented : ℕ
  reply : Reply
  /-- What was stored, and the page that had stored it after a refresh. -/
  storage : LocalStorage
  storedBy : Option ℕ
deriving DecidableEq, Repr

structure Browser where
  storage : LocalStorage
  pages : List Page
  /-- The refresh tokens that the server accepts, and the number of the next token. -/
  accepted : List ℕ
  nextToken : ℕ
  /-- The page whose refresh has stored the tokens in the storage. -/
  storedBy : Option ℕ
  removals : List Removal
deriving DecidableEq, Repr

inductive BrowserEvent where
  | page (j : ℕ) (ev : TabEvent)
  /-- A new tab. -/
  | load
  | reload (j : ℕ)
  /-- The server answers a refresh, or it ends with an error that does not come from there. -/
  | serve (j k : ℕ)
  | lose (j k : ℕ)
  /-- A token expires, or is used by a page that is gone. -/
  | expire (token : ℕ)
deriving DecidableEq, Repr

namespace Browser

/-- A storage, and a server that accepts some tokens. -/
def init (storage : LocalStorage) (accepted : List ℕ) : Browser where
  storage := storage
  pages := []
  accepted := accepted
  nextToken :=
    (storage.accessToken.toList ++ storage.refreshToken.toList ++ accepted).foldr max 0 + 1
  storedBy := none
  removals := []

/-- What is noted of an event of the page `j`. -/
def removal (s : Browser) (j : ℕ) (page : Page) : TabEvent → Option Removal
  | .resume i => do
    let r ← page.calls[i]?
    match r.phase with
    | .waiting k =>
      let post ← page.refreshes[k]?
      let reply ← post.stage.settledReply
      if reply.accessToken = none then some ⟨j, post.refreshToken, reply, s.storage, s.storedBy⟩
      else none
    | _ => none
  | _ => none

/-- Who has stored what is in the storage after an event of the page `j`. -/
def storedAfter (s : Browser) (j : ℕ) (storage : LocalStorage) : TabEvent → Option ℕ
  | .store _ => some j
  | _ => if storage = s.storage then s.storedBy else none

def pageStep (s : Browser) (j : ℕ) (ev : TabEvent) : Option Browser := do
  let page ← s.pages[j]?
  let tab ← Tab.step ⟨page, s.storage⟩ ev
  return { s with
    storage := tab.storage
    pages := s.pages.set j tab.toPage
    storedBy := s.storedAfter j tab.storage ev
    removals := s.removals ++ (s.removal j page ev).toList }

/-- The endpoint `refresh`. -/
def serve (s : Browser) (j k : ℕ) : Option Browser := do
  let page ← s.pages[j]?
  let post ← page.refreshes[k]?
  if post.refreshToken ∈ s.accepted then
    let page ← page.reply k (.tokens s.nextToken (s.nextToken + 1))
    return { s with
      pages := s.pages.set j page
      accepted := s.accepted.filter (· ≠ post.refreshToken) ++ [s.nextToken + 1]
      nextToken := s.nextToken + 2 }
  else
    let page ← page.reply k .revoked
    return { s with pages := s.pages.set j page }

def step (s : Browser) : BrowserEvent → Option Browser
  | .page j ev => s.pageStep j ev
  | .load => some { s with pages := s.pages ++ [.load] }
  | .reload j => some { s with pages := s.pages.set j .load }
  | .serve j k => s.serve j k
  | .lose j k => do
    let page ← s.pages[j]?
    let page ← page.reply k .failed
    return { s with pages := s.pages.set j page }
  | .expire token => some { s with accepted := s.accepted.filter (· ≠ token) }

end Browser

/-! ## The property and its condition -/

/-- The refresh failed because its token was used up, and another page had stored a newer one. -/
def Removal.Destroys (x : Removal) : Prop :=
  x.reply = .revoked ∧ (∃ j, x.storedBy = some j ∧ j ≠ x.page) ∧
    ∃ token, x.storage.refreshToken = some token ∧ x.presented < token

/-- No page has removed the tokens that another page's refresh had stored. -/
def SessionKept (s : Browser) : Prop := ∀ x ∈ s.removals, ¬ x.Destroys

def CallPhase.waitsFor : CallPhase → Option ℕ
  | waiting k => some k
  | _ => none

/-- The server has refused the refresh, or has not answered it. -/
def Stage.mayBeRefused : Stage → Bool
  | inFlight none => true
  | inFlight (some reply) | arrived reply | stored reply | settled reply => reply = .revoked

/-- The tokens of the refreshes that calls of the page wait for, if the server may refuse them. -/
def Page.outstanding (p : Page) : List ℕ :=
  ((p.refreshPromise.toList ++ p.calls.filterMap (·.phase.waitsFor)).filterMap fun k =>
    p.refreshes[k]?.filter (·.stage.mayBeRefused)).map (·.refreshToken)

/-- Those of all other pages. -/
def Browser.others (s : Browser) (j : ℕ) : List ℕ :=
  ((List.range s.pages.length).filter (· ≠ j)).flatMap fun j' =>
    s.pages[j']?.toList.flatMap (·.outstanding)

/-- The refresh token that `.then` is about to store. -/
def Page.newToken (p : Page) (k : ℕ) : Option ℕ :=
  p.refreshes[k]?.bind fun post =>
    match post.stage with
    | .arrived (.tokens _ refreshToken) => some refreshToken
    | _ => none

/-- New tokens are stored while no other page waits for a refresh with an older one, which the
server has refused or not answered. -/
def storesAlone (s : Browser) : BrowserEvent → Bool
  | .page j (.store k) =>
    (s.pages[j]?.bind fun page => page.newToken k).all fun token =>
      (s.others j).all fun t => token ≤ t
  | _ => true

/-! ## Calls that wait -/

section

variable {p p' : Page} {s s' : Tab} {ev : TabEvent} {j k t : ℕ}

theorem mem_outstanding :
    t ∈ p.outstanding ↔ ∃ k post, p.refreshes[k]? = some post ∧
      post.stage.mayBeRefused = true ∧ post.refreshToken = t ∧
      (p.refreshPromise = some k ∨ ∃ r ∈ p.calls, r.phase = .waiting k) := by
  have hwaits : ∀ (r : ApiCall) (k : ℕ), r.phase.waitsFor = some k ↔ r.phase = .waiting k := by
    intro r k
    cases r.phase <;> simp [CallPhase.waitsFor]
  unfold Page.outstanding
  simp only [List.mem_map, List.mem_filterMap, List.mem_append, Option.mem_toList,
    Option.filter_eq_some_iff, hwaits]
  constructor
  · rintro ⟨post, ⟨k, hk, hpost, hrefused⟩, rfl⟩
    exact ⟨k, post, hpost, hrefused, rfl, hk⟩
  · rintro ⟨k, post, hpost, hrefused, rfl, hk⟩
    exact ⟨post, ⟨k, hk, hpost, hrefused⟩, rfl⟩

theorem mem_outstanding_of_setStage {post : RefreshPost} {stage : Stage}
    (hpost : p.refreshes[k]? = some post)
    (hstage : stage.mayBeRefused = true → post.stage.mayBeRefused = true)
    (h : t ∈ (p.setStage k post stage).outstanding) : t ∈ p.outstanding := by
  obtain ⟨j, post', hpost', hrefused, rfl, hwait⟩ := mem_outstanding.mp h
  rw [Page.getElem?_setStage hpost] at hpost'
  split at hpost'
  · rename_i hkj
    cases hpost'
    rw [hkj] at hpost
    exact mem_outstanding.mpr ⟨j, post, hpost, hstage hrefused, rfl, hwait⟩
  · exact mem_outstanding.mpr ⟨j, post', hpost', hrefused, rfl, hwait⟩

theorem mem_outstanding_of_setCall {i : ℕ} {r : ApiCall} (h : t ∈ (s.setCall i r).outstanding)
    (hr : ∀ k, r.phase = .waiting k → s.refreshPromise = some k) : t ∈ s.outstanding := by
  obtain ⟨k, post, hpost, hrefused, rfl, hwait⟩ := mem_outstanding.mp h
  refine mem_outstanding.mpr ⟨k, post, hpost, hrefused, rfl, ?_⟩
  rcases hwait with hpromise | ⟨r', hr', hphase⟩
  · exact .inl hpromise
  · rcases List.mem_or_eq_of_mem_set hr' with hr' | rfl
    · exact .inr ⟨r', hr', hphase⟩
    · exact .inl (hr k hphase)

theorem mem_outstanding_of_call {url : String} {authorization : Option ℕ}
    (h : t ∈ (s.call url authorization).outstanding) : t ∈ s.outstanding := by
  obtain ⟨k, post, hpost, hrefused, rfl, hwait⟩ := mem_outstanding.mp h
  refine mem_outstanding.mpr ⟨k, post, hpost, hrefused, rfl, hwait.imp_right ?_⟩
  rintro ⟨r, hr, hphase⟩
  rcases List.mem_append.mp hr with hr | hr
  · exact ⟨r, hr, hphase⟩
  · rw [List.mem_singleton.mp hr] at hphase
    cases hphase

theorem mem_outstanding_of_post {i token : ℕ} {r : ApiCall}
    (h : t ∈ (s.post i r token).outstanding) : t ∈ s.outstanding ∨ t = token := by
  obtain ⟨k, post, hpost, hrefused, rfl, hwait⟩ := mem_outstanding.mp h
  have hpost : (s.refreshes ++ [⟨token, .inFlight none⟩])[k]? = some post := hpost
  rw [List.getElem?_append] at hpost
  split at hpost
  · rename_i hk
    refine .inl (mem_outstanding.mpr ⟨k, post, hpost, hrefused, rfl, .inr ?_⟩)
    -- `refreshPromise` and the call have the number of the new promise
    rcases hwait with hpromise | ⟨r', hr', hphase⟩
    · have hlast : s.refreshes.length = k := Option.some.inj hpromise
      omega
    · rcases List.mem_or_eq_of_mem_set hr' with hr' | rfl
      · exact ⟨r', hr', hphase⟩
      · have hlast : s.refreshes.length = k := CallPhase.waiting.inj hphase
        omega
  · right
    rw [List.mem_singleton.mp (List.mem_of_getElem? hpost)]

/-- An event of a page makes it wait for nothing but a refresh with the token in the storage. -/
theorem mem_outstanding_of_move (hm : Tab.Move s ev s') (h : t ∈ s'.outstanding) :
    t ∈ s.outstanding ∨ s.storage.refreshToken = some t := by
  cases hm with
  | call url authorization => exact .inl (mem_outstanding_of_call h)
  | dispatch _ _ => exact .inl (mem_outstanding_of_setCall h fun k hphase => by cases hphase)
  | @ended i r status phase _ _ _ hend =>
    refine .inl (mem_outstanding_of_setCall h fun k hphase => ?_)
    have hphase : phase = CallPhase.waiting k := hphase
    rw [hphase] at hend
    rcases hend with hend | hend <;> cases hend
  | joined _ _ _ _ hpromise =>
    refine .inl (mem_outstanding_of_setCall h fun k hphase => ?_)
    rw [hpromise, CallPhase.waiting.inj hphase]
  | loggedOut _ _ _ _ =>
    exact .inl (mem_outstanding_of_setCall (s := s) h fun k hphase => by cases hphase)
  | posted _ _ _ _ _ htoken =>
    rcases mem_outstanding_of_post h with hold | rfl
    · exact .inl hold
    · exact .inr htoken
  | arrive hpost hstage _ =>
    exact .inl (mem_outstanding_of_setStage hpost (fun hrefused => by rwa [hstage]) h)
  | store hpost hstage =>
    exact .inl (mem_outstanding_of_setStage hpost (fun hrefused => by rwa [hstage]) h)
  | @clear k post reply hpost hstage =>
    have hrefused : (Stage.settled reply).mayBeRefused = true → post.stage.mayBeRefused = true := by
      intro hrefused
      rcases hstage with hstage | ⟨hstage, _⟩
      · rwa [hstage]
      · rwa [hstage]
    obtain ⟨j, post', hget, hrefused', rfl, hwait⟩ := mem_outstanding.mp h
    refine .inl (mem_outstanding_of_setStage hpost hrefused
      (mem_outstanding.mpr ⟨j, post', hget, hrefused', rfl, ?_⟩))
    rcases hwait with hnone | hwait
    · cases hnone
    · exact .inr hwait
  | resent _ _ _ _ => exact .inl (mem_outstanding_of_setCall h fun k hphase => by cases hphase)
  | gaveUp _ _ _ _ =>
    exact .inl (mem_outstanding_of_setCall (s := s) h fun k hphase => by cases hphase)

end

/-! ## The tokens that other pages present -/

section

variable {s s' : Browser} {ev : TabEvent} {page page' : Page} {a j k t : ℕ}

theorem mem_others :
    t ∈ s.others a ↔ ∃ j page, j ≠ a ∧ s.pages[j]? = some page ∧ t ∈ page.outstanding := by
  unfold Browser.others
  simp only [List.mem_flatMap, List.mem_filter, List.mem_range, Option.mem_toList,
    decide_eq_true_eq]
  constructor
  · rintro ⟨j, ⟨_, hne⟩, page, hpage, ht⟩
    exact ⟨j, page, hne, hpage, ht⟩
  · rintro ⟨j, page, hne, hpage, ht⟩
    exact ⟨j, ⟨(List.getElem?_eq_some_iff.mp hpage).1, hne⟩, page, hpage, ht⟩

/-- The pages other than `j` present what they did. -/
theorem mem_others_set (hpages : s'.pages = s.pages.set j page') (h : t ∈ s'.others a) :
    t ∈ s.others a ∨ j ≠ a ∧ t ∈ page'.outstanding := by
  obtain ⟨j', q, hne, hq, ht⟩ := mem_others.mp h
  rw [hpages, List.getElem?_set] at hq
  split at hq
  · rename_i hjj
    split at hq
    · cases hq
      exact .inr ⟨hjj ▸ hne, ht⟩
    · cases hq
  · exact .inl (mem_others.mpr ⟨j', q, hne, hq, ht⟩)

/-- An event that only concerns the refreshes of a page which are in flight, or a page itself. -/
theorem others_of_quieter (hpage : s.pages[j]? = some page)
    (hpages : s'.pages = s.pages.set j page')
    (hsub : ∀ t ∈ page'.outstanding, t ∈ page.outstanding) (h : t ∈ s'.others a) :
    t ∈ s.others a := by
  rcases mem_others_set hpages h with h | ⟨hne, h⟩
  · exact h
  · exact mem_others.mpr ⟨j, page, hne, hpage, hsub t h⟩

theorem outstanding_of_reply {reply : Reply} (hpage : page.reply k reply = some page') :
    ∀ t ∈ page'.outstanding, t ∈ page.outstanding := by
  obtain ⟨post, prior, hpost, hstage, hfirst, rfl⟩ := Page.reply_eq_some hpage
  refine fun t ht => mem_outstanding_of_setStage hpost (fun hrefused => ?_) ht
  rcases hfirst with rfl | rfl
  · rw [hstage]
    rfl
  · cases hrefused

theorem outstanding_load : Page.load.outstanding = [] := rfl

/-- What is noted was presented by a refresh that a call of the page waits for. -/
theorem mem_outstanding_of_removal {x : Removal} (h : s.removal j page ev = some x)
    (hrevoked : x.reply = .revoked) :
    x.page = j ∧ x.storage = s.storage ∧ x.storedBy = s.storedBy ∧
      x.presented ∈ page.outstanding := by
  cases ev with
  | resume i =>
    obtain ⟨r, hr, h⟩ := Option.bind_eq_some_iff.mp h
    split at h
    · rename_i k hphase
      obtain ⟨post, hpost, h⟩ := Option.bind_eq_some_iff.mp h
      obtain ⟨reply, hreply, h⟩ := Option.bind_eq_some_iff.mp h
      split at h
      · cases h
        have hrefused : post.stage.mayBeRefused = true := by
          rw [Stage.settledReply_eq_some_iff.mp hreply]
          exact decide_eq_true hrevoked
        refine ⟨rfl, rfl, rfl, mem_outstanding.mpr ⟨k, post, hpost, hrefused, rfl, .inr ?_⟩⟩
        exact ⟨r, List.mem_of_getElem? hr, hphase⟩
      · cases h
    · cases h
  | _ => cases h

/-! ## The invariant -/

/-- Tokens that a refresh has stored are not older than what other pages present. -/
structure Newest (s : Browser) : Prop where
  kept : SessionKept s
  newest : ∀ {a token}, s.storedBy = some a → s.storage.refreshToken = some token →
    ∀ t ∈ s.others a, token ≤ t

/-- Neither the storage nor the tokens that are presented change. -/
theorem Newest.of_others (h : Newest s) (hremovals : s'.removals = s.removals)
    (hstored : s'.storedBy = s.storedBy) (hstorage : s'.storage = s.storage)
    (hothers : ∀ {a}, ∀ t ∈ s'.others a, t ∈ s.others a) : Newest s' where
  kept := by
    unfold SessionKept
    rw [hremovals]
    exact h.kept
  newest := by
    intro a token ha htoken t ht
    rw [hstored] at ha
    rw [hstorage] at htoken
    exact h.newest ha htoken t (hothers t ht)

/-- Tokens are stored by `.then`, or have been there before. -/
theorem storedAfter_eq_some {storage : LocalStorage}
    (h : s.storedAfter j storage ev = some a) :
    (∃ k, ev = .store k ∧ j = a) ∨ storage = s.storage ∧ s.storedBy = some a := by
  unfold Browser.storedAfter at h
  split at h
  · exact .inl ⟨_, rfl, Option.some.inj h⟩
  · split at h
    · exact .inr ⟨‹_›, h⟩
    · cases h

theorem Newest.pageStep (h : Newest s) (hc : storesAlone s (.page j ev) = true)
    (hs : s.pageStep j ev = some s') : Newest s' := by
  obtain ⟨page, hpage, hs⟩ := Option.bind_eq_some_iff.mp hs
  obtain ⟨tab, htab, hs⟩ := Option.bind_eq_some_iff.mp hs
  have hm := Tab.step_cases htab
  cases hs
  constructor
  · intro x hx hdestroys
    rcases List.mem_append.mp hx with hx | hx
    · exact h.kept x hx hdestroys
    · -- the invariant before the step: what is stored is not newer than what was presented
      obtain ⟨hrevoked, ⟨a, ha, hne⟩, token, htoken, hlt⟩ := hdestroys
      obtain ⟨rfl, hstorage, hstored, hpresented⟩ :=
        mem_outstanding_of_removal (Option.mem_toList.mp hx) hrevoked
      rw [hstored] at ha
      rw [hstorage] at htoken
      have hle := h.newest ha htoken _ (mem_others.mpr ⟨x.page, page, hne.symm, hpage, hpresented⟩)
      omega
  · intro a token ha htoken t ht
    have hothers := mem_others_set rfl ht
    rcases storedAfter_eq_some ha with ⟨k, rfl, rfl⟩ | ⟨hstorage, hstored⟩
    · cases hm with
      | @store _ accessToken refreshToken post hpost hstage =>
        have hnew : page.newToken k = some token := by
          unfold Page.newToken
          rw [show page.refreshes[k]? = some post from hpost, Option.bind_some, hstage]
          exact htoken
        rcases hothers with hold | ⟨hne, _⟩
        · -- the condition of the step is about just these
          simp only [storesAlone, hpage, Option.bind_some, hnew, Option.all_some,
            List.all_eq_true] at hc
          exact of_decide_eq_true (hc t hold)
        · exact absurd rfl hne
    · have htoken : tab.storage.refreshToken = some token := htoken
      rw [hstorage] at htoken
      rcases hothers with hold | ⟨hne, hwaits⟩
      · exact h.newest hstored htoken t hold
      · -- a refresh that is posted now presents the very token that is stored
        rcases mem_outstanding_of_move hm hwaits with hwaits | hposted
        · exact h.newest hstored htoken t (mem_others.mpr ⟨j, page, hne, hpage, hwaits⟩)
        · exact Nat.le_of_eq (Option.some.inj (htoken.symm.trans hposted))

theorem Newest.serve (h : Newest s) (hs : s.serve j k = some s') : Newest s' := by
  obtain ⟨page, hpage, hs⟩ := Option.bind_eq_some_iff.mp hs
  obtain ⟨post, hpost, hs⟩ := Option.bind_eq_some_iff.mp hs
  split at hs
  · obtain ⟨page', hreply, hs⟩ := Option.bind_eq_some_iff.mp hs
    cases hs
    exact h.of_others rfl rfl rfl fun t ht =>
      others_of_quieter hpage rfl (outstanding_of_reply hreply) ht
  · obtain ⟨page', hreply, hs⟩ := Option.bind_eq_some_iff.mp hs
    cases hs
    exact h.of_others rfl rfl rfl fun t ht =>
      others_of_quieter hpage rfl (outstanding_of_reply hreply) ht

theorem Newest.load (h : Newest s) : Newest { s with pages := s.pages ++ [.load] } := by
  refine h.of_others rfl rfl rfl fun t ht => ?_
  obtain ⟨j, page, hne, hpage, hout⟩ := mem_others.mp ht
  have hpage : (s.pages ++ [.load])[j]? = some page := hpage
  rw [List.getElem?_append] at hpage
  split at hpage
  · exact mem_others.mpr ⟨j, page, hne, hpage, hout⟩
  · rw [List.mem_singleton.mp (List.mem_of_getElem? hpage), outstanding_load] at hout
    cases hout

theorem Newest.step {ev : BrowserEvent} (h : Newest s) (hc : storesAlone s ev = true)
    (hs : s.step ev = some s') : Newest s' := by
  cases ev with
  | page j ev => exact h.pageStep hc hs
  | load =>
    cases hs
    exact h.load
  | reload j =>
    cases hs
    refine h.of_others rfl rfl rfl fun t ht => ?_
    rcases mem_others_set rfl ht with hold | ⟨_, hnew⟩
    · exact hold
    · rw [outstanding_load] at hnew
      cases hnew
  | serve j k => exact h.serve hs
  | lose j k =>
    obtain ⟨page, hpage, hs⟩ := Option.bind_eq_some_iff.mp hs
    obtain ⟨page', hreply, hs⟩ := Option.bind_eq_some_iff.mp hs
    cases hs
    exact h.of_others rfl rfl rfl fun t ht =>
      others_of_quieter hpage rfl (outstanding_of_reply hreply) ht
  | expire token =>
    cases hs
    exact h.of_others rfl rfl rfl fun _ ht => ht

end

/-! ## Runs -/

theorem newest_init (storage : LocalStorage) (accepted : List ℕ) :
    Newest (.init storage accepted) where
  kept := by
    intro x hx
    cases hx
  newest := by
    intro a token ha
    cases ha

/-- The tokens that a refresh has stored are not removed by another page whose older token was
refused, in a run in which tokens are stored only while no other page waits for a refresh with an
older one. -/
theorem sessionKept_of_storesAlone (storage : LocalStorage) (accepted : List ℕ)
    (events : List BrowserEvent)
    (h : Run.AllSteps Browser.step (fun s ev => storesAlone s ev = true) (.init storage accepted)
      events) :
    Run.AllStates Browser.step SessionKept (.init storage accepted) events :=
  (Run.AllStates.of_inv (I := Newest) (fun _ _ _ hs hc hstep => hs.step hc hstep)
    (newest_init storage accepted) h).mono fun _ hs => hs.kept

/-- Two pages with the same expired access token post the same refresh token, and the server answers
the first. -/
def bothPost : List BrowserEvent :=
  [.load, .load, .page 0 (.call "/api/v1/leads" none), .page 0 (.dispatch 0),
   .page 1 (.call "/api/v1/jobs" none), .page 1 (.dispatch 0), .page 0 (.response 0 (some 401)),
   .page 1 (.response 0 (some 401)), .serve 0 0, .serve 1 0]

/-- The new tokens arrive and are stored. -/
def tokensArrive : List BrowserEvent :=
  [.page 0 (.arrive 0), .page 0 (.store 0), .page 0 (.clear 0), .page 0 (.resume 0),
   .page 0 (.dispatch 0)]

/-- The refusal arrives. -/
def refusalArrives : List BrowserEvent :=
  [.page 1 (.arrive 0), .page 1 (.clear 0), .page 1 (.resume 0)]

def refusedFirst : List BrowserEvent := bothPost ++ refusalArrives ++ tokensArrive

/-- If the refusal comes first, the new tokens stay. -/
theorem sessionKept_refusedFirst :
    Run.AllStates Browser.step SessionKept (.init ⟨some 0, some 1⟩ [1]) refusedFirst ∧
      (Run.exec Browser.step (.init ⟨some 0, some 1⟩ [1]) refusedFirst).map (·.storage) =
        some ⟨some 2, some 3⟩ := by
  refine ⟨sessionKept_of_storesAlone _ _ _ (Run.AllSteps.of_check (fun _ _ h => h) ?_), ?_⟩
  · decide +kernel
  · decide +kernel

/-- If it comes later, they are removed. -/
theorem twoTabs_removed :
    ¬ Run.AllStates Browser.step SessionKept (.init ⟨some 0, some 1⟩ [1])
      (bothPost ++ tokensArrive ++ refusalArrives) := by
  refine Run.not_allStates (q := fun s => s.storage = .empty ∧
    s.removals = [⟨1, 1, .revoked, ⟨some 2, some 3⟩, some 0⟩]) (fun s hkept => ?_) ?_
  · refine decide_eq_false fun hq => ?_
    have hmem : ⟨1, 1, .revoked, ⟨some 2, some 3⟩, some 0⟩ ∈ s.removals := by
      rw [hq.2]
      exact List.mem_singleton.mpr rfl
    exact hkept _ hmem ⟨rfl, ⟨0, rfl, by decide⟩, 3, rfl, by decide⟩
  · decide +kernel

end Frontend
end LeadPulse
