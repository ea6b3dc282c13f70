import LeadPulse.Auth.Requests

/-!
# Refresh tokens are single use

`refresh` looks its token up in the blacklist, queries the user, and only then puts the token on
the blacklist. `twoRefreshes_answered` is a run in which two requests with one token have both
passed the lookup before either writes, and both are answered with new tokens.

`singleUse_of_soleRefresh` says when a token is single use: in every run in which a refresh that
passes the lookup is the only one under way with its token, and the token has never been on the
blacklist.
-/

namespace LeadPulse

/-- No token is exchanged for new ones twice. -/
def SingleUse (w : AuthWorld) : Prop := w.refreshed.Nodup

/-- The token of a refresh between its lookup and its write. -/
def AuthRequest.refreshing (r : AuthRequest) : Option ℕ :=
  if r.kind = .refresh ∧ (r.phase = .loading ∨ r.phase = .rotating) then some r.token.jti else none

namespace AuthWorld

/-- The tokens of all such requests. -/
def refreshing (w : AuthWorld) : List ℕ := Pool.held AuthRequest.refreshing w.requests

end AuthWorld

/-- A refresh that passes the lookup finds no entry for its token, not even one that has run
out, and no other refresh with the token is under way. -/
def soleRefresh (w : AuthWorld) : AuthEvent → Bool
  | .begin .refresh tok => w.checked .refresh tok ≠ .loading ∨
      w.blacklist tok.jti = none ∧ tok.jti ∉ w.refreshing
  | _ => true

/-! ## The invariant -/

namespace AuthRequest

variable {r : AuthRequest}

theorem refreshing_of_kind (h : r.kind ≠ .refresh) : r.refreshing = none := by
  unfold refreshing
  rw [if_neg]
  intro hr
  exact h hr.1

theorem refreshing_of_phase (h : r.phase ≠ .loading) (h' : r.phase ≠ .rotating) :
    r.refreshing = none := by
  unfold refreshing
  rw [if_neg]
  intro hr
  rcases hr.2 with hl | hr
  · exact h hl
  · exact h' hr

theorem refreshing_eq (hk : r.kind = .refresh) (hp : r.phase = .loading ∨ r.phase = .rotating) :
    r.refreshing = some r.token.jti := by
  unfold refreshing
  rw [if_pos ⟨hk, hp⟩]

/-- Only a refresh writes the blacklist in this way. -/
def RotatesOnly (r : AuthRequest) : Prop := r.phase = .rotating → r.kind = .refresh

end AuthRequest

namespace AuthWorld

variable {cfg : JwtConfig} {w w' : AuthWorld} {ev : AuthEvent} {i : ℕ} {r : AuthRequest}

structure Single (w : AuthWorld) : Prop where
  rotating : Pool.Each AuthRequest.RotatesOnly w.requests
  /-- The tokens under way and those that have been exchanged are all different ones. -/
  nodup : (w.refreshing ++ w.refreshed).Nodup
  listed : ∀ jti ∈ w.refreshed, w.blacklist jti ≠ none

theorem single_init (t : ℚ) : (init t).Single where
  rotating := Pool.Each.nil
  nodup := List.nodup_nil
  listed := fun _ h => nomatch h

/-- A change that concerns neither requests nor the blacklist. -/
theorem Single.of_eq {u : AuthWorld} (h : w.Single) (hr : u.requests = w.requests)
    (hf : u.refreshed = w.refreshed) (hb : ∀ jti, w.blacklist jti ≠ none → u.blacklist jti ≠ none) :
    u.Single where
  rotating := by
    rw [hr]
    exact h.rotating
  nodup := by
    unfold refreshing
    rw [hr, hf]
    exact h.nodup
  listed := by
    rw [hf]
    exact fun jti hjti => hb jti (h.listed jti hjti)

theorem Single.blacklistToken (h : w.Single) (tok : Token) : (w.blacklistToken tok).Single :=
  h.of_eq rfl rfl fun _ hjti => Expiry.setex_ne_none hjti

theorem Single.ite_blacklistToken (h : w.Single) (c : Prop) [Decidable c] (tok : Token) :
    (if c then w.blacklistToken tok else w).Single := by
  split
  · exact h.blacklistToken tok
  · exact h

/-- A request that goes on holds the token that it held, or none. -/
theorem Single.setPhase {phase : RequestPhase} (h : w.Single) (hi : w.requests[i]? = some r)
    (hrot : phase = .rotating → r.kind = .refresh)
    (hold : AuthRequest.refreshing { r with phase := phase } = r.refreshing ∨
      AuthRequest.refreshing { r with phase := phase } = none) :
    (w.setPhase i r phase).Single where
  rotating := h.rotating.set hrot
  nodup := by
    obtain ⟨rest, hbefore, hafter⟩ :=
      Pool.held_set AuthRequest.refreshing { r with phase := phase } hi
    have hnodup : ((r.refreshing.toList ++ rest) ++ w.refreshed).Nodup :=
      (hbefore.append_right w.refreshed).nodup_iff.mp h.nodup
    refine (hafter.append_right w.refreshed).nodup_iff.mpr ?_
    rcases hold with hsame | hnone
    · rw [hsame]
      exact hnodup
    · rw [hnone]
      rw [List.append_assoc] at hnodup
      exact (List.nodup_append.mp hnodup).2.1
  listed := h.listed

/-! ## One step -/

theorem single_begin {kind : RequestKind} {tok : Token} (h : w.Single)
    (hc : soleRefresh w (.begin kind tok) = true) :
    Single { w with requests := w.requests ++
      [⟨kind, tok, tok.jti ∈ w.revoked, w.checked kind tok⟩] } := by
  have hphase : w.checked kind tok ≠ .rotating := by
    unfold checked
    split
    · simp
    · split
      · simp
      · split <;> simp
  have hrot : Pool.Each AuthRequest.RotatesOnly
      (w.requests ++ [⟨kind, tok, tok.jti ∈ w.revoked, w.checked kind tok⟩]) :=
    h.rotating.append fun hr => absurd hr hphase
  refine ⟨hrot, ?_, h.listed⟩
  show (Pool.held AuthRequest.refreshing (w.requests ++ [_]) ++ w.refreshed).Nodup
  rw [Pool.held_append]
  by_cases hpass : kind = .refresh ∧ w.checked kind tok = .loading
  · obtain ⟨rfl, hload⟩ := hpass
    rw [AuthRequest.refreshing_eq rfl (.inl hload), List.append_assoc]
    -- the condition: the token is neither under way nor on the blacklist
    have hfree : w.blacklist tok.jti = none ∧ tok.jti ∉ w.refreshing := by
      simpa [soleRefresh, hload] using hc
    have hnew : tok.jti ∉ w.refreshing ++ w.refreshed := by
      rw [List.mem_append, not_or]
      exact ⟨hfree.2, fun hmem => h.listed _ hmem hfree.1⟩
    exact List.perm_middle.nodup_iff.mpr (List.nodup_cons.mpr ⟨hnew, h.nodup⟩)
  · have hnone : AuthRequest.refreshing
        ⟨kind, tok, tok.jti ∈ w.revoked, w.checked kind tok⟩ = none := by
      by_cases hk : kind = .refresh
      · exact AuthRequest.refreshing_of_phase (fun hl => hpass ⟨hk, hl⟩) hphase
      · exact AuthRequest.refreshing_of_kind hk
    rw [hnone, Option.toList_none, List.append_nil]
    exact h.nodup

theorem single_loadUser (h : w.Single) (hi : w.requests[i]? = some r) (hl : r.phase = .loading) :
    (w.loadUser i r).Single := by
  have hrejected : ∀ error, AuthRequest.refreshing { r with phase := .rejected error } = none :=
    fun error => AuthRequest.refreshing_of_phase (by simp) (by simp)
  unfold loadUser
  split
  · split
    · rename_i hk
      exact (h.setPhase hi (by simp) (.inr (AuthRequest.refreshing_of_kind (by simp [hk])))).of_eq
        rfl rfl fun _ hjti => hjti
    · rename_i hk
      -- the token stays under way
      refine h.setPhase hi (fun _ => hk) (.inl ?_)
      rw [AuthRequest.refreshing_eq hk (.inl hl)]
      exact AuthRequest.refreshing_eq hk (.inr rfl)
    · rename_i hk
      exact (h.setPhase hi (by simp) (.inr (AuthRequest.refreshing_of_kind (by simp [hk])))).of_eq
        rfl rfl fun _ hjti => hjti
  · exact h.setPhase hi (by simp) (.inr (hrejected _))

/-- The answer of a refresh: its token passes from those under way to the exchanged ones. -/
theorem single_rotate (h : w.Single) (hi : w.requests[i]? = some r) (hp : r.phase = .rotating) :
    (w.rotate cfg i r).Single := by
  have hk : r.kind = .refresh := h.rotating.get hi hp
  obtain ⟨rest, hbefore, hafter⟩ :=
    Pool.held_set AuthRequest.refreshing { r with phase := .answered } hi
  rw [AuthRequest.refreshing_eq hk (.inr hp)] at hbefore
  rw [AuthRequest.refreshing_of_phase (by simp) (by simp)] at hafter
  have hrequests : (w.rotate cfg i r).requests =
      w.requests.set i { r with phase := .answered } := rfl
  refine ⟨?_, ?_, fun jti hjti => ?_⟩
  · rw [hrequests]
    exact h.rotating.set fun hr => nomatch hr
  · have hnodup : (r.token.jti :: (rest ++ w.refreshed)).Nodup :=
      (hbefore.append_right w.refreshed).nodup_iff.mp h.nodup
    show (Pool.held AuthRequest.refreshing (w.requests.set i { r with phase := .answered }) ++
      (w.refreshed ++ [r.token.jti])).Nodup
    refine (hafter.append_right _).nodup_iff.mpr ?_
    show (rest ++ (w.refreshed ++ [r.token.jti])).Nodup
    rw [← List.append_assoc]
    exact (List.perm_append_singleton _ _).nodup_iff.mpr hnodup
  · rcases List.mem_append.mp hjti with hold | hnew
    · exact Expiry.setex_ne_none (h.listed jti hold)
    · obtain rfl := List.mem_singleton.mp hnew
      show w.blacklist.setex _ _ _ _ ≠ none
      rw [Expiry.setex_self]
      exact Option.some_ne_none _

theorem single_step (h : w.Single) (hc : soleRefresh w ev = true)
    (hs : w.step cfg ev = some w') : w'.Single := by
  have hdone : ∀ {i r phase}, w.requests[i]? = some r → phase ≠ .loading → phase ≠ .rotating →
      (w.setPhase i r phase).Single := fun hi hl hr =>
    h.setPhase hi (fun hrot => absurd hrot hr) (.inr (AuthRequest.refreshing_of_phase hl hr))
  cases step_move hs with
  | tick d hd => exact h.of_eq rfl rfl fun _ hjti => hjti
  | addUser userId => exact h.of_eq rfl rfl fun _ hjti => hjti
  | login userId hu => exact h.of_eq rfl rfl fun _ hjti => hjti
  | begin kind tok hp => exact single_begin h hc
  | load i r hi hl => exact single_loadUser h hi hl
  | rotate i r hi hp => exact single_rotate h hi hp
  | revokeAccess i r hi hp =>
    have hnew : (w.setPhase i r
        (if r.kind = .logout none then .answered else .revokingRefresh)).Single := by
      split <;> exact hdone hi (by simp) (by simp)
    exact hnew.ite_blacklistToken _ r.token
  | revokeRefresh i r tok hi hp hk =>
    exact (hdone hi (by simp) (by simp)).ite_blacklistToken _ tok

end AuthWorld

/-! ## Runs -/

/-- If each refresh that passes the lookup is the only one under way with its token, which has
never been on the blacklist, no token is exchanged twice. -/
theorem singleUse_of_soleRefresh (cfg : JwtConfig) (t : ℚ) (events : List AuthEvent)
    (h : Run.AllSteps (AuthWorld.step cfg) (fun w ev => soleRefresh w ev = true)
      (AuthWorld.init t) events) :
    Run.AllStates (AuthWorld.step cfg) SingleUse (AuthWorld.init t) events := by
  have hinv := Run.AllStates.of_inv (fun _ _ _ hw hc hs => AuthWorld.single_step hw hc hs)
    (AuthWorld.single_init t) h
  refine hinv.mono fun w hw => ?_
  exact (List.nodup_append.mp hw.nodup).2.1

/-- A user with a pair of tokens; the second one is the refresh token. -/
def loggedIn : List AuthEvent := [.addUser 7, .login 7]

/-- That refresh token, as issued at time zero. -/
def firstRefreshToken : Token := ⟨1, .refresh, 7, 604800⟩

/-- One after the other: the second request is refused. -/
theorem singleUse_sequential :
    Run.AllStates (AuthWorld.step {}) SingleUse (AuthWorld.init 0)
      (loggedIn ++ [.begin .refresh firstRefreshToken, .load 0, .revoke 0,
        .begin .refresh firstRefreshToken]) :=
  singleUse_of_soleRefresh _ 0 _ (Run.AllSteps.of_check (fun _ _ h => h) (by decide +kernel))

/-- Two requests that pass the lookup before either of them writes. -/
theorem twoRefreshes_answered :
    ¬ Run.AllStates (AuthWorld.step {}) SingleUse (AuthWorld.init 0)
      (loggedIn ++ [.begin .refresh firstRefreshToken, .begin .refresh firstRefreshToken,
        .load 0, .load 1, .revoke 0, .revoke 1]) := by
  refine Run.not_allStates (q := fun w => w.refreshed = [1, 1]) (fun w hw => ?_) ?_
  · refine decide_eq_false fun hq => ?_
    have hnodup : w.refreshed.Nodup := hw
    rw [hq] at hnodup
    simp at hnodup
  · decide +kernel

end LeadPulse
