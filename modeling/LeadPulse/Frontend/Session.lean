import LeadPulse.Lib.Pool
import LeadPulse.Lib.Run

/-!
# The session in the browser

One tab with its `localStorage`, the requests of `lib/api.ts` in flight, and the server, which
knows what tokens are valid. A callback runs to its end before the next one begins: the answer
to a request, the answer to the refresh that all waiting requests share, a click on logout.

`logout` clears the storage, but a refresh that was sent before is answered later, and its
callback stores what it gets: `lateRefresh_returns` is such a run, in which a waiting request is
sent again with a valid token. `logoutFinal_iff`: logout is final exactly if no successful
answer to a refresh is handled while logged out.
-/

namespace LeadPulse

structure LocalStorage where
  accessToken : Option ℕ
  refreshToken : Option ℕ
deriving DecidableEq, Repr

def LocalStorage.empty : LocalStorage := ⟨none, none⟩

inductive ApiPhase where
  | sent
  /-- Answered with 401, and waiting for `refreshPromise`. -/
  | waiting
  | settled
deriving DecidableEq, Repr

/-- A request of the application. -/
structure ApiRequest where
  /-- The token in its `Authorization` header. -/
  token : Option ℕ
  /-- `_retry`. -/
  retry : Bool
  phase : ApiPhase
deriving DecidableEq, Repr

/-- The refresh in flight. -/
inductive RefreshCall where
  | sent (refreshToken : ℕ)
  /-- Answered with new tokens, or with an error; the answer is on its way. -/
  | answered (tokens : Option (ℕ × ℕ))
deriving DecidableEq, Repr

/-- The request of `logout`. -/
structure LogoutCall where
  accessToken : ℕ
  refreshToken : Option ℕ
deriving DecidableEq, Repr

structure Session where
  storage : LocalStorage
  refreshPromise : Option RefreshCall
  requests : List ApiRequest
  logoutCalls : List LogoutCall
  /-- The tokens that the server accepts, and the number of the next one. -/
  valid : List ℕ
  nextToken : ℕ
  /-- `logout` has run, and there was no login since. -/
  loggedOut : Bool
  /-- The valid tokens that were sent while logged out, without what `logout` sends itself. -/
  validSent : List ℕ
deriving DecidableEq, Repr

inductive SessionEvent where
  /-- `loginFromCallback` with new tokens. -/
  | login
  | logout
  /-- The page is loaded again: only the storage stays. -/
  | reload
  /-- The application sends a request. -/
  | request
  /-- A request, by its position, is answered with a status, or fails. -/
  | response (i : ℕ) (status : Option ℕ)
  /-- The server answers the refresh, or its answer is lost. -/
  | serveRefresh
  | loseRefresh
  /-- The answer to the refresh arrives. -/
  | refreshed
  /-- The server answers a logout. -/
  | serveLogout (i : ℕ)
  /-- A token expires. -/
  | expire (token : ℕ)
deriving DecidableEq, Repr

namespace Session

def init : Session where
  storage := .empty
  refreshPromise := none
  requests := []
  logoutCalls := []
  valid := []
  nextToken := 0
  loggedOut := false
  validSent := []

/-- What is noted when a token is sent. -/
def noted (s : Session) (token : Option ℕ) : List ℕ :=
  token.toList.filter fun token => s.loggedOut ∧ token ∈ s.valid

/-! ## The client -/

def login (s : Session) : Session :=
  { s with
    storage := ⟨some s.nextToken, some (s.nextToken + 1)⟩
    valid := s.valid ++ [s.nextToken, s.nextToken + 1]
    nextToken := s.nextToken + 2
    loggedOut := false }

def logout (s : Session) : Session :=
  { s with
    storage := .empty
    loggedOut := true
    logoutCalls := match s.storage.accessToken with
      | none => s.logoutCalls
      | some accessToken => s.logoutCalls ++ [⟨accessToken, s.storage.refreshToken⟩] }

/-- The request interceptor takes the token from the storage. -/
def request (s : Session) : Session :=
  { s with
    requests := s.requests ++ [⟨s.storage.accessToken, false, .sent⟩]
    validSent := s.validSent ++ s.noted s.storage.accessToken }

/-- The response interceptor: a first 401 waits for a refresh, and starts one if there is none. -/
def response (s : Session) (i : ℕ) (r : ApiRequest) (status : Option ℕ) : Session :=
  if status = some 401 ∧ ! r.retry then
    let waiting := s.requests.set i { r with retry := true, phase := .waiting }
    match s.refreshPromise with
    | some _ => { s with requests := waiting }
    | none =>
      match s.storage.refreshToken with
      | none => { s with
          storage := .empty
          requests := s.requests.set i { r with retry := true, phase := .settled } }
      | some refreshToken => { s with
          requests := waiting
          refreshPromise := some (.sent refreshToken)
          -- the refresh has the access token in its header as well
          validSent := s.validSent ++ s.noted s.storage.accessToken ++ s.noted refreshToken }
  else { s with requests := s.requests.set i { r with phase := .settled } }

/-- What a waiting request does when the refresh has ended. -/
def ApiRequest.resume (r : ApiRequest) (accessToken : Option ℕ) : ApiRequest :=
  if r.phase = .waiting then
    match accessToken with
    | some token => { r with token := some token, phase := .sent }
    | none => { r with phase := .settled }
  else r

/-- `refreshPromise` settles. With new tokens, all waiting requests are sent again; without,
each of them clears the storage. -/
def refreshed (s : Session) : Option (ℕ × ℕ) → Session
  | some (accessToken, refreshToken) =>
    { s with
      storage := ⟨some accessToken, some refreshToken⟩
      refreshPromise := none
      requests := s.requests.map fun r => ApiRequest.resume r (some accessToken)
      validSent := s.validSent ++ (s.requests.filter (·.phase = .waiting)).flatMap fun _ =>
        s.noted accessToken }
  | none =>
    { s with
      storage := if s.requests.any (·.phase = .waiting) then .empty else s.storage
      refreshPromise := none
      requests := s.requests.map fun r => ApiRequest.resume r none }

/-! ## The server -/

/-- The endpoint `refresh`: a valid token is exchanged for two new ones. -/
def serveRefresh (s : Session) (refreshToken : ℕ) : Session :=
  if refreshToken ∈ s.valid then
    { s with
      refreshPromise := some (.answered (some (s.nextToken, s.nextToken + 1)))
      valid := s.valid.filter (· ≠ refreshToken) ++ [s.nextToken, s.nextToken + 1]
      nextToken := s.nextToken + 2 }
  else { s with refreshPromise := some (.answered none) }

/-- The endpoint `logout`: with a valid access token, that one and the refresh token are revoked. -/
def serveLogout (s : Session) (call : LogoutCall) : Session :=
  if call.accessToken ∈ s.valid then
    { s with valid := s.valid.filter fun token =>
        token ≠ call.accessToken ∧ some token ≠ call.refreshToken }
  else s

def step (s : Session) : SessionEvent → Option Session
  | .login => some s.login
  | .logout => some s.logout
  | .reload => some { s with refreshPromise := none, requests := [] }
  | .request => some s.request
  | .response i status => s.requests[i]?.bind fun r =>
      if r.phase = .sent then some (s.response i r status) else none
  | .serveRefresh =>
    match s.refreshPromise with
    | some (.sent refreshToken) => some (s.serveRefresh refreshToken)
    | _ => none
  | .loseRefresh =>
    match s.refreshPromise with
    | some _ => some { s with refreshPromise := some (.answered none) }
    | none => none
  | .refreshed =>
    match s.refreshPromise with
    | some (.answered tokens) => some (s.refreshed tokens)
    | _ => none
  | .serveLogout i => s.logoutCalls[i]?.map fun call =>
      { s.serveLogout call with logoutCalls := s.logoutCalls.eraseIdx i }
  | .expire token => some { s with valid := s.valid.filter (· ≠ token) }

end Session

/-! ## The property and its condition -/

/-- While logged out the storage is empty, and no valid token has been sent. -/
def LogoutFinal (s : Session) : Prop :=
  (s.loggedOut = true → s.storage = .empty) ∧ s.validSent = []

/-- A successful answer to a refresh arrives only while logged in. -/
def noLateRefresh (s : Session) : SessionEvent → Bool
  | .refreshed =>
    match s.refreshPromise with
    | some (.answered (some _)) => ! s.loggedOut
    | _ => true
  | _ => true

/-! ## One step -/

namespace Session

variable {s s' : Session} {ev : SessionEvent}

/-- While logged in nothing is noted. -/
theorem noted_of_loggedIn (h : s.loggedOut = false) (token : Option ℕ) : s.noted token = [] := by
  unfold noted
  rw [h]
  simp

/-- What is taken from the storage is not noted either: while logged out it is empty. -/
theorem noted_accessToken (h : LogoutFinal s) : s.noted s.storage.accessToken = [] := by
  cases hout : s.loggedOut with
  | false => exact noted_of_loggedIn hout _
  | true =>
    rw [h.1 hout]
    rfl

theorem noted_refreshToken (h : LogoutFinal s) : s.noted s.storage.refreshToken = [] := by
  cases hout : s.loggedOut with
  | false => exact noted_of_loggedIn hout _
  | true =>
    rw [h.1 hout]
    rfl

/-- A step that touches neither the storage nor the network. -/
theorem logoutFinal_of_eq (h : LogoutFinal s) (hout : s'.loggedOut = s.loggedOut)
    (hstorage : s'.storage = s.storage) (hsent : s'.validSent = s.validSent) : LogoutFinal s' := by
  unfold LogoutFinal
  rw [hout, hstorage, hsent]
  exact h

theorem logoutFinal_response {i : ℕ} {r : ApiRequest} {status : Option ℕ} (h : LogoutFinal s) :
    LogoutFinal (s.response i r status) := by
  unfold response
  dsimp only
  split
  · split
    · exact logoutFinal_of_eq h rfl rfl rfl
    · split
      · exact ⟨fun _ => rfl, h.2⟩
      · -- a refresh is sent with what is in the storage
        rename_i refreshToken hrefresh
        refine ⟨h.1, ?_⟩
        have hnoted := noted_refreshToken h
        rw [hrefresh] at hnoted
        show s.validSent ++ s.noted s.storage.accessToken ++ s.noted (some refreshToken) = []
        rw [h.2, noted_accessToken h, hnoted]
        rfl
  · exact logoutFinal_of_eq h rfl rfl rfl

theorem logoutFinal_refreshed {tokens : Option (ℕ × ℕ)} (h : LogoutFinal s)
    (hc : tokens.isSome = true → s.loggedOut = false) : LogoutFinal (s.refreshed tokens) := by
  cases tokens with
  | none =>
    refine ⟨fun hout => ?_, h.2⟩
    show (if _ then LocalStorage.empty else s.storage) = LocalStorage.empty
    split
    · rfl
    · exact h.1 hout
  | some tokens =>
    have hin := hc rfl
    refine ⟨fun hout => ?_, ?_⟩
    · have hout : s.loggedOut = true := hout
      rw [hin] at hout
      cases hout
    · show s.validSent ++ (s.requests.filter _).flatMap _ = []
      simp [h.2, noted_of_loggedIn hin]

theorem logoutFinal_step (h : LogoutFinal s) (hc : noLateRefresh s ev = true)
    (hs : s.step ev = some s') : LogoutFinal s' := by
  cases ev with
  | login =>
    cases hs
    refine ⟨fun hout => ?_, h.2⟩
    cases hout
  | logout =>
    cases hs
    exact ⟨fun _ => rfl, h.2⟩
  | reload =>
    cases hs
    exact logoutFinal_of_eq h rfl rfl rfl
  | request =>
    cases hs
    refine ⟨h.1, ?_⟩
    show s.validSent ++ s.noted s.storage.accessToken = []
    rw [h.2, noted_accessToken h]
    rfl
  | response i status =>
    obtain ⟨r, _, hs⟩ := Option.bind_eq_some_iff.mp hs
    split at hs
    · cases hs
      exact logoutFinal_response h
    · cases hs
  | serveRefresh =>
    simp only [step] at hs
    split at hs
    · cases hs
      unfold serveRefresh
      split
      · exact logoutFinal_of_eq h rfl rfl rfl
      · exact logoutFinal_of_eq h rfl rfl rfl
    · cases hs
  | loseRefresh =>
    simp only [step] at hs
    split at hs
    · cases hs
      exact logoutFinal_of_eq h rfl rfl rfl
    · cases hs
  | refreshed =>
    simp only [step] at hs
    split at hs
    · rename_i tokens hpromise
      cases hs
      refine logoutFinal_refreshed h fun hsome => ?_
      obtain ⟨new, rfl⟩ := Option.isSome_iff_exists.mp hsome
      simp only [noLateRefresh, hpromise] at hc
      simpa using hc
    · cases hs
  | serveLogout i =>
    obtain ⟨call, _, rfl⟩ := Option.map_eq_some_iff.mp hs
    unfold serveLogout
    split
    · exact logoutFinal_of_eq h rfl rfl rfl
    · exact logoutFinal_of_eq h rfl rfl rfl
  | expire token =>
    cases hs
    exact logoutFinal_of_eq h rfl rfl rfl

/-- A refresh that is answered too late fills the storage. -/
theorem storage_of_lateRefresh (hc : ¬ noLateRefresh s ev = true) (hs : s.step ev = some s') :
    ¬ LogoutFinal s' := by
  cases ev with
  | refreshed =>
    cases hpromise : s.refreshPromise with
    | none => exact absurd (by simp [noLateRefresh, hpromise]) hc
    | some call =>
      cases call with
      | sent refreshToken => exact absurd (by simp [noLateRefresh, hpromise]) hc
      | answered tokens =>
        cases tokens with
        | none => exact absurd (by simp [noLateRefresh, hpromise]) hc
        | some tokens =>
          have hout : s.loggedOut = true := by simpa [noLateRefresh, hpromise] using hc
          simp only [step, hpromise] at hs
          cases hs
          intro hfinal
          have hempty := hfinal.1 hout
          cases hempty
  | _ => exact absurd rfl hc

end Session

/-! ## Runs -/

/-- Logout is final in a run exactly if no successful answer to a refresh arrives while logged
out. -/
theorem logoutFinal_iff (events : List SessionEvent) :
    Run.AllStates Session.step LogoutFinal Session.init events ↔
      Run.AllSteps Session.step (fun s ev => noLateRefresh s ev = true) Session.init events :=
  Run.allStates_iff_allSteps (I := LogoutFinal) (fun _ hs => hs)
    (fun _ _ _ h hc hs => Session.logoutFinal_step h hc hs)
    (fun _ _ _ _ hc hs => Session.storage_of_lateRefresh hc hs) ⟨fun _ => rfl, rfl⟩ events

/-- An expired access token: a request is answered with 401 and starts a refresh, which the
server answers. Then the user logs out, also on the server, and the answer arrives. -/
def lateRefresh : List SessionEvent :=
  [.login, .expire 0, .request, .response 0 (some 401), .serveRefresh, .logout, .serveLogout 0,
   .refreshed]

/-- The new tokens are in the storage, and the request has been sent with one of them. -/
theorem lateRefresh_returns :
    ¬ Run.AllStates Session.step LogoutFinal Session.init lateRefresh := by
  refine Run.not_allStates (q := fun s => s.loggedOut ∧ s.storage = ⟨some 2, some 3⟩ ∧
    s.validSent = [2]) (fun s hs => ?_) ?_
  · refine decide_eq_false fun hq => ?_
    rw [hs.2] at hq
    cases hq.2.2
  · decide +kernel

end LeadPulse
