import LeadPulse.Auth.Tokens
import LeadPulse.Lib.Expiry
import LeadPulse.Lib.Pool
import LeadPulse.Lib.Run
import LeadPulse.Models

/-!
# Requests with tokens

The endpoints that take a token (`refresh`, `logout`, and every endpoint that depends on
`get_current_user`) as requests in flight. A request takes one step for each operation on Redis
or on the database: it begins with the lookup in the blacklist, goes on with the query for its
user, and ends for a refresh with the write to the blacklist, for a logout with one or two of
them. What it computes in between happens at the moment of the operation that follows. The steps
of any number of requests may interleave, and the clock may move on between any two.

Every token is one that the server has issued (its signature is checked), and no two have the
same `jti`. Users are not deleted.
-/

namespace LeadPulse

/-- The lifetimes of new tokens, in seconds. -/
structure JwtConfig where
  accessTokenExpire : ℕ := 1800
  refreshTokenExpire : ℕ := 604800
deriving DecidableEq, Repr

inductive RequestKind where
  /-- An endpoint behind `get_current_user`. -/
  | use
  | refresh
  /-- With the refresh token of the body. -/
  | logout (refreshToken : Option Token)
deriving DecidableEq, Repr

/-- The type of the token that a request has to present. -/
def RequestKind.tokenType : RequestKind → TokenType
  | .refresh => .refresh
  | _ => .access

/-- What a request does next. -/
inductive RequestPhase where
  /-- The query for the user. -/
  | loading
  /-- The write to the blacklist that ends a refresh. -/
  | rotating
  /-- The writes to the blacklist of a logout. -/
  | revokingAccess
  | revokingRefresh
  | answered
  | rejected (error : HTTPException)
deriving DecidableEq, Repr

structure AuthRequest where
  kind : RequestKind
  token : Token
  /-- The token had been revoked before the request began. -/
  late : Bool
  phase : RequestPhase
deriving DecidableEq, Repr

structure AuthWorld where
  now : ℚ
  users : List ℕ
  nextJti : ℕ
  tokens : List Token
  blacklist : Expiry ℕ ℚ
  requests : List AuthRequest
  /-- The tokens for which new ones were issued, once for each answer. -/
  refreshed : List ℕ
  /-- The tokens that were put on the blacklist. -/
  revoked : List ℕ
  /-- The tokens that were accepted from a request that began after their revocation. -/
  acceptedAgain : List ℕ

inductive AuthEvent where
  | tick (d : ℚ)
  | addUser (userId : ℕ)
  | login (userId : ℕ)
  /-- A request arrives; its token is decoded and looked up in the blacklist. -/
  | begin (kind : RequestKind) (token : Token)
  /-- The query for the user of a request, by its position. -/
  | load (i : ℕ)
  /-- The next write to the blacklist. -/
  | revoke (i : ℕ)
deriving DecidableEq, Repr

/-! ## The checks -/

namespace RequestKind

/-- The refusals of `refresh`, and of `get_current_user`. -/
def expired : RequestKind → HTTPException
  | .refresh => ⟨401, "Invalid or expired refresh token"⟩
  | _ => ⟨401, "Invalid or expired token"⟩

def wrongType : HTTPException := ⟨401, "Invalid token type"⟩

def revoked : RequestKind → HTTPException
  | .refresh => ⟨401, "Refresh token has been revoked"⟩
  | _ => ⟨401, "Token has been revoked"⟩

def userNotFound : HTTPException := ⟨401, "User not found"⟩

end RequestKind

namespace AuthWorld

variable (cfg : JwtConfig)

def init (t : ℚ) : AuthWorld where
  now := t
  users := []
  nextJti := 0
  tokens := []
  blacklist := fun _ => none
  requests := []
  refreshed := []
  revoked := []
  acceptedAgain := []

/-- `is_token_blacklisted`. -/
def isTokenBlacklisted (w : AuthWorld) (jti : ℕ) : Bool := w.blacklist.alive jti w.now

/-- What the first checks of a request lead to. -/
def checked (w : AuthWorld) (kind : RequestKind) (tok : Token) : RequestPhase :=
  if ! decodeToken tok w.now then .rejected kind.expired
  else if tok.type ≠ kind.tokenType then .rejected RequestKind.wrongType
  else if w.isTokenBlacklisted tok.jti then .rejected kind.revoked
  else .loading

/-- A new token; `exp` is stored in whole seconds. -/
def createToken (w : AuthWorld) (type : TokenType) (userId lifetime : ℕ) : AuthWorld :=
  { w with
    nextJti := w.nextJti + 1
    tokens := w.tokens ++ [⟨w.nextJti, type, userId, ⌊w.now⌋ + lifetime⟩] }

def createAccessToken (w : AuthWorld) (userId : ℕ) : AuthWorld :=
  w.createToken .access userId cfg.accessTokenExpire

def createRefreshToken (w : AuthWorld) (userId : ℕ) : AuthWorld :=
  w.createToken .refresh userId cfg.refreshTokenExpire

/-- A `TokenResponse`. -/
def issue (w : AuthWorld) (userId : ℕ) : AuthWorld :=
  (w.createAccessToken cfg userId).createRefreshToken cfg userId

/-- `add_token_to_blacklist` with the rest of the life of the token. -/
def blacklistToken (w : AuthWorld) (tok : Token) : AuthWorld :=
  { w with
    blacklist := w.blacklist.setex tok.jti w.now (ttlSeconds tok.exp w.now)
    revoked := w.revoked ++ [tok.jti] }

def setPhase (w : AuthWorld) (i : ℕ) (r : AuthRequest) (phase : RequestPhase) : AuthWorld :=
  { w with requests := w.requests.set i { r with phase := phase } }

/-- The request is accepted. -/
def accept (w : AuthWorld) (r : AuthRequest) : AuthWorld :=
  { w with acceptedAgain := if r.late then w.acceptedAgain ++ [r.token.jti] else w.acceptedAgain }

/-- The query for the user. `get_current_user` accepts its request here. -/
def loadUser (w : AuthWorld) (i : ℕ) (r : AuthRequest) : AuthWorld :=
  if r.token.sub ∈ w.users then
    match r.kind with
    | .use => (w.setPhase i r .answered).accept r
    | .refresh => w.setPhase i r .rotating
    | .logout _ => (w.setPhase i r .revokingAccess).accept r
  else w.setPhase i r (.rejected RequestKind.userNotFound)

/-- The end of `refresh`. -/
def rotate (w : AuthWorld) (i : ℕ) (r : AuthRequest) : AuthWorld :=
  let w := (((w.setPhase i r .answered).blacklistToken r.token).issue cfg r.token.sub).accept r
  { w with refreshed := w.refreshed ++ [r.token.jti] }

/-- `logout` decodes its token once more. -/
def revokeAccess (w : AuthWorld) (i : ℕ) (r : AuthRequest) : AuthWorld :=
  let w := w.setPhase i r (if r.kind = .logout none then .answered else .revokingRefresh)
  if decodeToken r.token w.now then w.blacklistToken r.token else w

/-- The refresh token of the body; one that is not valid, or not a refresh token, is ignored. -/
def revokeRefresh (w : AuthWorld) (i : ℕ) (r : AuthRequest) (tok : Token) : AuthWorld :=
  let w := w.setPhase i r .answered
  if decodeToken tok w.now ∧ tok.type = .refresh then w.blacklistToken tok else w

/-- The next write to the blacklist of a request. -/
def revoke (w : AuthWorld) (i : ℕ) (r : AuthRequest) : Option AuthWorld :=
  match r.phase, r.kind with
  | .rotating, _ => some (w.rotate cfg i r)
  | .revokingAccess, _ => some (w.revokeAccess i r)
  | .revokingRefresh, .logout (some tok) => some (w.revokeRefresh i r tok)
  | _, _ => none

/-- The tokens that a request presents are valid ones. -/
def presents (w : AuthWorld) (kind : RequestKind) (tok : Token) : Bool :=
  match kind with
  | .logout (some refreshToken) => tok ∈ w.tokens ∧ refreshToken ∈ w.tokens
  | _ => tok ∈ w.tokens

def step (w : AuthWorld) : AuthEvent → Option AuthWorld
  | .tick d => if 0 ≤ d then some { w with now := w.now + d } else none
  | .addUser userId => some { w with users := w.users ++ [userId] }
  | .login userId => if userId ∈ w.users then some (w.issue cfg userId) else none
  | .begin kind tok =>
    if w.presents kind tok then
      some { w with requests := w.requests ++
        [⟨kind, tok, tok.jti ∈ w.revoked, w.checked kind tok⟩] }
    else none
  | .load i => w.requests[i]?.bind fun r =>
      if r.phase = .loading then some (w.loadUser i r) else none
  | .revoke i => w.requests[i]?.bind fun r => w.revoke cfg i r

/-! ## What a step does -/

/-- The steps, one constructor for each operation. -/
inductive Move (cfg : JwtConfig) (w : AuthWorld) : AuthEvent → AuthWorld → Prop where
  | tick (d : ℚ) (hd : 0 ≤ d) : Move cfg w (.tick d) { w with now := w.now + d }
  | addUser (userId : ℕ) : Move cfg w (.addUser userId) { w with users := w.users ++ [userId] }
  | login (userId : ℕ) (hu : userId ∈ w.users) : Move cfg w (.login userId) (w.issue cfg userId)
  | begin (kind : RequestKind) (tok : Token) (hp : w.presents kind tok = true) :
    Move cfg w (.begin kind tok) { w with requests := w.requests ++
      [⟨kind, tok, tok.jti ∈ w.revoked, w.checked kind tok⟩] }
  | load (i : ℕ) (r : AuthRequest) (hi : w.requests[i]? = some r) (hp : r.phase = .loading) :
    Move cfg w (.load i) (w.loadUser i r)
  | rotate (i : ℕ) (r : AuthRequest) (hi : w.requests[i]? = some r) (hp : r.phase = .rotating) :
    Move cfg w (.revoke i) (w.rotate cfg i r)
  | revokeAccess (i : ℕ) (r : AuthRequest) (hi : w.requests[i]? = some r)
    (hp : r.phase = .revokingAccess) : Move cfg w (.revoke i) (w.revokeAccess i r)
  | revokeRefresh (i : ℕ) (r : AuthRequest) (tok : Token) (hi : w.requests[i]? = some r)
    (hp : r.phase = .revokingRefresh) (hk : r.kind = .logout (some tok)) :
    Move cfg w (.revoke i) (w.revokeRefresh i r tok)

theorem step_move {cfg : JwtConfig} {w w' : AuthWorld} {ev : AuthEvent}
    (hs : w.step cfg ev = some w') : Move cfg w ev w' := by
  cases ev with
  | tick d =>
    simp only [step] at hs
    split at hs
    · rename_i hd
      cases hs
      exact .tick d hd
    · cases hs
  | addUser userId =>
    cases hs
    exact .addUser userId
  | login userId =>
    simp only [step] at hs
    split at hs
    · rename_i hu
      cases hs
      exact .login userId hu
    · cases hs
  | begin kind tok =>
    simp only [step] at hs
    split at hs
    · rename_i hp
      cases hs
      exact .begin kind tok hp
    · cases hs
  | load i =>
    obtain ⟨r, hi, hs⟩ := Option.bind_eq_some_iff.mp hs
    split at hs
    · rename_i hp
      cases hs
      exact .load i r hi hp
    · cases hs
  | revoke i =>
    obtain ⟨r, hi, hs⟩ := Option.bind_eq_some_iff.mp hs
    unfold revoke at hs
    split at hs
    · rename_i hp
      cases hs
      exact .rotate i r hi hp
    · rename_i hp
      cases hs
      exact .revokeAccess i r hi hp
    · rename_i tok hp hk
      cases hs
      exact .revokeRefresh i r tok hi hp hk
    · cases hs

end AuthWorld
end LeadPulse
