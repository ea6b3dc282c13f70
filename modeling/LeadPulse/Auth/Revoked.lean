import LeadPulse.Auth.Requests
import LeadPulse.Lib.Table

/-!
# Revoked stays revoked

A token that has been put on the blacklist is to be refused for good. Its entry is made for the
whole seconds until `exp`, and is gone at `exp` or less than a second before; but
`decode_token` takes the token until the second of `exp` is over. So there is a time in which
the token is taken again.

* `revokedStays_iff`: after a token is first revoked, no later request with it is ever accepted,
  exactly if it was revoked at `exp` or later;
* `lapsed_accepts` is the other half on its own: a token whose entry has run out, and that is not
  expired, is accepted.
-/

namespace LeadPulse
namespace AuthWorld

variable {cfg : JwtConfig} {w w' : AuthWorld} {ev : AuthEvent} {i : ℕ} {r : AuthRequest}
  {tok : Token}

/-! ## What is known of tokens and requests -/

/-- The tokens of a request have been issued, and it is late only if its token was revoked. -/
structure Presented (tokens : List Token) (revoked : List ℕ) (r : AuthRequest) : Prop where
  token : r.token ∈ tokens
  body : ∀ tok, r.kind = .logout (some tok) → tok ∈ tokens
  late : r.late = true → r.token.jti ∈ revoked

structure Sound (w : AuthWorld) : Prop where
  jti_lt : ∀ tok ∈ w.tokens, tok.jti < w.nextJti
  keyed : Table.Keyed Token.jti w.tokens
  user : ∀ tok ∈ w.tokens, tok.sub ∈ w.users
  requests : Pool.Each (Presented w.tokens w.revoked) w.requests
  acceptedAgain : ∀ jti ∈ w.acceptedAgain, jti ∈ w.revoked

theorem sound_init (t : ℚ) : (init t).Sound where
  jti_lt := fun _ h => nomatch h
  keyed := List.nodup_nil
  user := fun _ h => nomatch h
  requests := Pool.Each.nil
  acceptedAgain := fun _ h => nomatch h

theorem presents_mem {kind : RequestKind} (h : w.presents kind tok = true) : tok ∈ w.tokens := by
  unfold presents at h
  split at h
  · exact (of_decide_eq_true h).1
  · exact of_decide_eq_true h

theorem Sound.setPhase {phase : RequestPhase} (h : w.Sound) (hi : w.requests[i]? = some r) :
    (w.setPhase i r phase).Sound where
  jti_lt := h.jti_lt
  keyed := h.keyed
  user := h.user
  requests := by
    have hr := h.requests.get hi
    exact h.requests.set ⟨hr.token, hr.body, hr.late⟩
  acceptedAgain := h.acceptedAgain

theorem Sound.accept (h : w.Sound) (hlate : r.late = true → r.token.jti ∈ w.revoked) :
    (w.accept r).Sound where
  jti_lt := h.jti_lt
  keyed := h.keyed
  user := h.user
  requests := h.requests
  acceptedAgain := by
    intro jti hjti
    have hjti : jti ∈ if r.late = true then w.acceptedAgain ++ [r.token.jti] else w.acceptedAgain :=
      hjti
    split at hjti
    · rename_i hr
      rcases List.mem_append.mp hjti with hold | hnew
      · exact h.acceptedAgain jti hold
      · obtain rfl := List.mem_singleton.mp hnew
        exact hlate hr
    · exact h.acceptedAgain jti hjti

theorem Sound.blacklistToken (h : w.Sound) (tok : Token) : (w.blacklistToken tok).Sound where
  jti_lt := h.jti_lt
  keyed := h.keyed
  user := h.user
  requests := h.requests.mono fun _ hr =>
    ⟨hr.token, hr.body, fun hl => List.mem_append_left _ (hr.late hl)⟩
  acceptedAgain := fun jti hjti => List.mem_append_left _ (h.acceptedAgain jti hjti)

theorem Sound.eq_of_jti {tok' : Token} (h : w.Sound) (htok : tok ∈ w.tokens)
    (htok' : tok' ∈ w.tokens) (hjti : tok'.jti = tok.jti) : tok' = tok := by
  have hget := Table.get_of_mem h.keyed htok
  have hget' := Table.get_of_mem h.keyed htok'
  rw [hjti, hget] at hget'
  exact (Option.some.inj hget').symm

/-- A new token, numbered from the sequence. -/
theorem Sound.createToken {type : TokenType} {userId lifetime : ℕ} (h : w.Sound)
    (hu : userId ∈ w.users) : (w.createToken type userId lifetime).Sound where
  jti_lt := Table.lt_append h.jti_lt rfl
  keyed := h.keyed.append (Table.get_of_lt h.jti_lt)
  user := by
    intro tok htok
    rcases List.mem_append.mp htok with hold | hnew
    · exact h.user tok hold
    · obtain rfl := List.mem_singleton.mp hnew
      exact hu
  requests := h.requests.mono fun _ hr => ⟨List.mem_append_left _ hr.token,
    fun tok hk => List.mem_append_left _ (hr.body tok hk), hr.late⟩
  acceptedAgain := h.acceptedAgain

theorem Sound.issue {userId : ℕ} (h : w.Sound) (hu : userId ∈ w.users) :
    (w.issue cfg userId).Sound := by
  have haccess : (w.createAccessToken cfg userId).Sound := h.createToken hu
  exact haccess.createToken hu

theorem Sound.ite_blacklistToken (h : w.Sound) (c : Prop) [Decidable c] (tok : Token) :
    (if c then w.blacklistToken tok else w).Sound := by
  split
  · exact h.blacklistToken tok
  · exact h

theorem Sound.loadUser (h : w.Sound) (hi : w.requests[i]? = some r) : (w.loadUser i r).Sound := by
  have hlate := (h.requests.get hi).late
  unfold AuthWorld.loadUser
  split
  · split
    · exact (h.setPhase hi).accept hlate
    · exact h.setPhase hi
    · exact (h.setPhase hi).accept hlate
  · exact h.setPhase hi

theorem Sound.rotate (h : w.Sound) (hi : w.requests[i]? = some r) : (w.rotate cfg i r).Sound := by
  have hr := h.requests.get hi
  have hset : (w.setPhase i r .answered).Sound := h.setPhase hi
  have hissue : (((w.setPhase i r .answered).blacklistToken r.token).issue cfg r.token.sub).Sound :=
    (hset.blacklistToken r.token).issue (h.user _ hr.token)
  have hnew := hissue.accept fun hl => List.mem_append_left [r.token.jti] (hr.late hl)
  exact ⟨hnew.jti_lt, hnew.keyed, hnew.user, hnew.requests, hnew.acceptedAgain⟩

theorem sound_step (h : w.Sound) (hs : w.step cfg ev = some w') : w'.Sound := by
  cases step_move hs with
  | tick d hd => exact ⟨h.jti_lt, h.keyed, h.user, h.requests, h.acceptedAgain⟩
  | addUser userId =>
    exact ⟨h.jti_lt, h.keyed, fun tok htok => List.mem_append_left _ (h.user tok htok),
      h.requests, h.acceptedAgain⟩
  | login userId hu => exact h.issue hu
  | begin kind tok hp =>
    refine ⟨h.jti_lt, h.keyed, h.user, h.requests.append ?_, h.acceptedAgain⟩
    refine ⟨presents_mem hp, fun tok' hk => ?_, fun hl => of_decide_eq_true hl⟩
    · have hk : kind = .logout (some tok') := hk
      rw [hk] at hp
      exact (of_decide_eq_true hp).2
  | load i r hi hp => exact h.loadUser hi
  | rotate i r hi hp => exact h.rotate hi
  | revokeAccess i r hi hp => exact (h.setPhase hi).ite_blacklistToken _ r.token
  | revokeRefresh i r tok hi hp hk => exact (h.setPhase hi).ite_blacklistToken _ tok

/-! ## A token that was revoked in time -/

/-- A token whose entry outlives it: no request with it that began after its revocation has got
past the lookup. -/
structure StaysRevoked (tok : Token) (w : AuthWorld) : Prop where
  mem : tok ∈ w.tokens
  time : (tok.exp : ℚ) ≤ w.now
  entry : ∃ until', w.blacklist tok.jti = some until' ∧ (tok.exp : ℚ) + 1 ≤ until'
  requests : Pool.Each (fun r => r.token.jti = tok.jti → r.late = true →
    r.phase ≠ .loading ∧ r.phase ≠ .rotating) w.requests
  accepted : tok.jti ∉ w.acceptedAgain

/-- The lookup finds the entry for as long as the token can be decoded. -/
theorem StaysRevoked.checked (h : StaysRevoked tok w) (kind : RequestKind) :
    w.checked kind tok ≠ .loading ∧ w.checked kind tok ≠ .rotating := by
  unfold AuthWorld.checked
  by_cases hdecode : decodeToken tok w.now = true
  · have halive : w.isTokenBlacklisted tok.jti = true := by
      obtain ⟨until', hentry, hle⟩ := h.entry
      have hlt := decodeToken_iff.mp hdecode
      exact (Expiry.alive_of_eq hentry).mpr (lt_of_lt_of_le hlt hle)
    rw [hdecode, halive]
    by_cases htype : tok.type ≠ kind.tokenType
    · simp [htype]
    · simp [htype]
  · simp [hdecode]

theorem StaysRevoked.setPhase {phase : RequestPhase} (h : StaysRevoked tok w)
    (hi : w.requests[i]? = some r) (hphase : r.phase = .loading ∨ r.phase = .rotating ∨
      phase ≠ .loading ∧ phase ≠ .rotating) : StaysRevoked tok (w.setPhase i r phase) where
  mem := h.mem
  time := h.time
  entry := h.entry
  requests := by
    refine h.requests.set fun hjti hlate => ?_
    have hr := h.requests.get hi hjti hlate
    rcases hphase with hl | hr' | hphase
    · exact absurd hl hr.1
    · exact absurd hr' hr.2
    · exact hphase
  accepted := h.accepted

theorem StaysRevoked.blacklistToken {tok' : Token} (h : StaysRevoked tok w)
    (heq : tok'.jti = tok.jti → tok' = tok) : StaysRevoked tok (w.blacklistToken tok') where
  mem := h.mem
  time := h.time
  entry := by
    show ∃ until', w.blacklist.setex tok'.jti w.now _ tok.jti = some until' ∧ _
    by_cases hjti : tok'.jti = tok.jti
    · -- the entry is made anew, again at `exp` or later
      rw [heq hjti, Expiry.setex_self]
      exact ⟨_, rfl, le_lapse h.time⟩
    · rw [Expiry.setex_of_ne (Ne.symm hjti)]
      exact h.entry
  requests := h.requests
  accepted := h.accepted

theorem StaysRevoked.ite_blacklistToken {tok' : Token} (h : StaysRevoked tok w) (c : Prop)
    [Decidable c] (heq : tok'.jti = tok.jti → tok' = tok) :
    StaysRevoked tok (if c then w.blacklistToken tok' else w) := by
  split
  · exact h.blacklistToken heq
  · exact h

theorem StaysRevoked.issue {userId : ℕ} (h : StaysRevoked tok w) :
    StaysRevoked tok (w.issue cfg userId) :=
  ⟨List.mem_append_left _ (List.mem_append_left _ h.mem), h.time, h.entry, h.requests, h.accepted⟩

theorem StaysRevoked.accept (h : StaysRevoked tok w)
    (hr : r.token.jti = tok.jti → r.late = false) : StaysRevoked tok (w.accept r) where
  mem := h.mem
  time := h.time
  entry := h.entry
  requests := h.requests
  accepted := by
    show tok.jti ∉ if r.late = true then w.acceptedAgain ++ [r.token.jti] else w.acceptedAgain
    split
    · rename_i hlate
      rw [List.mem_append, not_or]
      refine ⟨h.accepted, fun hmem => ?_⟩
      have hjti : r.token.jti = tok.jti := (List.mem_singleton.mp hmem).symm
      rw [hr hjti] at hlate
      cases hlate
    · exact h.accepted

theorem StaysRevoked.loadUser (h : StaysRevoked tok w) (hi : w.requests[i]? = some r)
    (hp : r.phase = .loading) : StaysRevoked tok (w.loadUser i r) := by
  -- so it is not a late request with this token
  have hlate : r.token.jti = tok.jti → r.late = false := by
    intro hjti
    cases hl : r.late with
    | false => rfl
    | true => exact absurd hp (h.requests.get hi hjti hl).1
  have hset : ∀ phase, StaysRevoked tok (w.setPhase i r phase) := fun _ => h.setPhase hi (.inl hp)
  unfold AuthWorld.loadUser
  split
  · split
    · exact (hset _).accept hlate
    · exact hset _
    · exact (hset _).accept hlate
  · exact hset _

theorem StaysRevoked.rotate (h : StaysRevoked tok w) (hi : w.requests[i]? = some r)
    (hp : r.phase = .rotating) (heq : r.token.jti = tok.jti → r.token = tok) :
    StaysRevoked tok (w.rotate cfg i r) := by
  have hlate : r.token.jti = tok.jti → r.late = false := by
    intro hjti
    cases hl : r.late with
    | false => rfl
    | true => exact absurd hp (h.requests.get hi hjti hl).2
  have hset : StaysRevoked tok (w.setPhase i r .answered) := h.setPhase hi (.inr (.inl hp))
  have hissue : StaysRevoked tok
      (((w.setPhase i r .answered).blacklistToken r.token).issue cfg r.token.sub) :=
    (hset.blacklistToken heq).issue
  have hnew := hissue.accept hlate
  exact ⟨hnew.mem, hnew.time, hnew.entry, hnew.requests, hnew.accepted⟩

theorem staysRevoked_step (hsound : w.Sound) (h : StaysRevoked tok w)
    (hs : w.step cfg ev = some w') : StaysRevoked tok w' := by
  have heq : ∀ tok' ∈ w.tokens, tok'.jti = tok.jti → tok' = tok :=
    fun tok' htok' hjti => hsound.eq_of_jti h.mem htok' hjti
  cases step_move hs with
  | tick d hd =>
    exact ⟨h.mem, le_trans h.time (le_add_of_nonneg_right hd), h.entry, h.requests, h.accepted⟩
  | addUser userId => exact ⟨h.mem, h.time, h.entry, h.requests, h.accepted⟩
  | login userId hu => exact h.issue
  | begin kind tok' hp =>
    refine ⟨h.mem, h.time, h.entry, h.requests.append fun hjti _ => ?_, h.accepted⟩
    have htok' : tok' ∈ w.tokens := presents_mem hp
    rw [heq tok' htok' hjti]
    exact h.checked kind
  | load i r hi hp => exact h.loadUser hi hp
  | rotate i r hi hp => exact h.rotate hi hp (heq _ (hsound.requests.get hi).token)
  | revokeAccess i r hi hp =>
    refine (h.setPhase hi (.inr (.inr ?_))).ite_blacklistToken _
      (heq _ (hsound.requests.get hi).token)
    split <;> simp
  | revokeRefresh i r tok' hi hp hk =>
    exact (h.setPhase hi (.inr (.inr (by simp)))).ite_blacklistToken _
      (heq _ ((hsound.requests.get hi).body tok' hk))

/-! ## The first revocation -/

/-- No request with the token is a late one so far. -/
structure NoneLate (tok : Token) (w : AuthWorld) : Prop where
  mem : tok ∈ w.tokens
  requests : Pool.Each (fun r => r.token.jti = tok.jti → r.late = false) w.requests
  accepted : tok.jti ∉ w.acceptedAgain

theorem Sound.noneLate (h : w.Sound) (htok : tok ∈ w.tokens) (hfirst : tok.jti ∉ w.revoked) :
    NoneLate tok w where
  mem := htok
  requests := by
    refine h.requests.mono fun r hr hjti => ?_
    cases hl : r.late with
    | false => rfl
    | true =>
      have := hr.late hl
      rw [hjti] at this
      exact absurd this hfirst
  accepted := fun hmem => hfirst (h.acceptedAgain _ hmem)

theorem NoneLate.setPhase {phase : RequestPhase} (h : NoneLate tok w)
    (hi : w.requests[i]? = some r) : NoneLate tok (w.setPhase i r phase) := by
  have hr := h.requests.get hi
  exact ⟨h.mem, h.requests.set hr, h.accepted⟩

theorem NoneLate.ite_blacklistToken {tok' : Token} (h : NoneLate tok w) (c : Prop) [Decidable c] :
    NoneLate tok (if c then w.blacklistToken tok' else w) := by
  split
  · exact ⟨h.mem, h.requests, h.accepted⟩
  · exact h

/-- The entry that is made for a token when it is first revoked. -/
def EntryMade (tok : Token) (now : ℚ) (w : AuthWorld) : Prop :=
  w.now = now ∧ w.blacklist tok.jti = some (now + ttlSeconds tok.exp now)

theorem entryMade_ite {tok' : Token} {c : Prop} [Decidable c] (hfirst : tok.jti ∉ w.revoked)
    (heq : tok'.jti = tok.jti → tok' = tok)
    (hrev : tok.jti ∈ (if c then w.blacklistToken tok' else w).revoked) :
    EntryMade tok w.now (if c then w.blacklistToken tok' else w) := by
  by_cases hc : c
  · rw [if_pos hc] at hrev ⊢
    rcases List.mem_append.mp hrev with hold | hnew
    · exact absurd hold hfirst
    · have hsame := heq (List.mem_singleton.mp hnew).symm
      rw [hsame]
      exact ⟨rfl, Expiry.setex_self⟩
  · rw [if_neg hc] at hrev
    exact absurd hrev hfirst

/-- The step that first revokes a token: it makes the entry, and no late request is there. -/
theorem first_revocation (hsound : w.Sound) (htok : tok ∈ w.tokens) (hfirst : tok.jti ∉ w.revoked)
    (hs : w.step cfg ev = some w') (hrev : tok.jti ∈ w'.revoked) :
    EntryMade tok w.now w' ∧ NoneLate tok w' := by
  have hnone := hsound.noneLate htok hfirst
  have heq : ∀ tok' ∈ w.tokens, tok'.jti = tok.jti → tok' = tok :=
    fun tok' htok' hjti => hsound.eq_of_jti htok htok' hjti
  cases step_move hs with
  | load i r hi hp =>
    have hsame : (w.loadUser i r).revoked = w.revoked := by
      unfold loadUser
      split
      · split <;> rfl
      · rfl
    rw [hsame] at hrev
    exact absurd hrev hfirst
  | rotate i r hi hp =>
    have htokr := (hsound.requests.get hi).token
    rcases List.mem_append.mp hrev with hold | hnew
    · exact absurd hold hfirst
    · have hjti : r.token.jti = tok.jti := (List.mem_singleton.mp hnew).symm
      have hsame := heq _ htokr hjti
      have hlate : r.late = false := hnone.requests.get hi hjti
      refine ⟨⟨rfl, ?_⟩, ?_, ?_, ?_⟩
      · show w.blacklist.setex r.token.jti w.now (ttlSeconds r.token.exp w.now) tok.jti = _
        rw [hsame]
        exact Expiry.setex_self
      · exact List.mem_append_left _ (List.mem_append_left _ htok)
      · exact hnone.requests.set fun _ => hlate
      · show tok.jti ∉ if r.late = true then _ else w.acceptedAgain
        rw [hlate]
        exact hnone.accepted
  | revokeAccess i r hi hp =>
    exact ⟨entryMade_ite hfirst (heq _ (hsound.requests.get hi).token) hrev,
      (hnone.setPhase hi).ite_blacklistToken _⟩
  | revokeRefresh i r tok' hi hp hk =>
    exact ⟨entryMade_ite hfirst (heq _ ((hsound.requests.get hi).body tok' hk)) hrev,
      (hnone.setPhase hi).ite_blacklistToken _⟩
  | _ => exact absurd hrev hfirst

/-! ## A token whose entry has run out -/

/-- The steps of a request that presents a token for what it is good for, from its beginning to
its answer, as the `n`-th request. -/
def useOf (tok : Token) (n : ℕ) : List AuthEvent :=
  match tok.type with
  | .access => [.begin .use tok, .load n]
  | .refresh => [.begin .refresh tok, .load n, .revoke n]

/-- A revoked token that can be decoded and is no longer on the blacklist is accepted. -/
theorem lapsed_accepts (cfg : JwtConfig) (hsound : w.Sound) (htok : tok ∈ w.tokens)
    (hrev : tok.jti ∈ w.revoked)
    (hdecode : decodeToken tok w.now = true) (hlapsed : w.isTokenBlacklisted tok.jti = false) :
    ∃ v, Run.exec (step cfg) w (useOf tok w.requests.length) = some v ∧
      tok.jti ∈ v.acceptedAgain := by
  have huser : tok.sub ∈ w.users := hsound.user tok htok
  unfold useOf
  cases htype : tok.type with
  | access =>
    have hchecked : w.checked .use tok = .loading := by
      simp [checked, hdecode, hlapsed, htype, RequestKind.tokenType]
    simp [Run.exec, step, presents, htok, hchecked, hrev, loadUser, huser, accept, setPhase]
  | refresh =>
    have hchecked : w.checked .refresh tok = .loading := by
      simp [checked, hdecode, hlapsed, htype, RequestKind.tokenType]
    simp [Run.exec, step, presents, htok, hchecked, hrev, loadUser, huser, accept, setPhase,
      revoke, rotate, issue, createAccessToken, createRefreshToken, createToken, blacklistToken]

end AuthWorld

/-! ## Runs -/

/-- Whatever happens later, no request that begins after the revocation of the token is accepted. -/
def StaysOut (cfg : JwtConfig) (tok : Token) (w : AuthWorld) : Prop :=
  ∀ later, Run.AllStates (AuthWorld.step cfg) (fun v => tok.jti ∉ v.acceptedAgain) w later

/-- An entry that is made at `exp` or later keeps the token out. -/
theorem staysOut_of_le {cfg : JwtConfig} {w : AuthWorld} {tok : Token} {now : ℚ}
    (hsound : w.Sound) (hentry : AuthWorld.EntryMade tok now w) (hnone : AuthWorld.NoneLate tok w)
    (hle : (tok.exp : ℚ) ≤ now) : StaysOut cfg tok w := by
  have hstays : AuthWorld.StaysRevoked tok w := by
    refine ⟨hnone.mem, ?_, ⟨_, hentry.2, le_lapse hle⟩, ?_, hnone.accepted⟩
    · rw [hentry.1]
      exact hle
    · intro r hr hjti hlate
      rw [hnone.requests r hr hjti] at hlate
      cases hlate
  intro later
  have hinv : Run.AllStates (AuthWorld.step cfg)
      (fun v => v.Sound ∧ AuthWorld.StaysRevoked tok v) w later :=
    Run.AllStates.of_step (fun _ _ _ hv hs =>
      ⟨AuthWorld.sound_step hv.1 hs, AuthWorld.staysRevoked_step hv.1 hv.2 hs⟩)
      ⟨hsound, hstays⟩ later
  exact hinv.mono fun v hv => hv.2.accepted

/-- An entry that is made before `exp` does not: wait until it has run out, and no longer. -/
theorem not_staysOut_of_lt {cfg : JwtConfig} {w : AuthWorld} {tok : Token} {now : ℚ}
    (hsound : w.Sound) (hrev : tok.jti ∈ w.revoked) (hentry : AuthWorld.EntryMade tok now w)
    (htok : tok ∈ w.tokens) (hlt : now < tok.exp) : ¬ StaysOut cfg tok w := by
  obtain ⟨hnow, hmade⟩ := hentry
  let u := max (tok.exp : ℚ) (now + ttlSeconds tok.exp now)
  have hu : u < tok.exp + 1 := max_lt (by linarith) (lapse_lt hlt)
  have hle : (tok.exp : ℚ) ≤ u := le_max_left _ _
  have hlapsed : now + ttlSeconds tok.exp now ≤ u := le_max_right _ _
  have htick : w.step cfg (.tick (u - now)) = some { w with now := u } := by
    have hd : 0 ≤ u - now := by linarith
    show (if 0 ≤ u - now then some { w with now := w.now + (u - now) } else none) = _
    rw [if_pos hd, hnow, add_sub_cancel]
  have hwait : AuthWorld.Sound { w with now := u } := AuthWorld.sound_step hsound htick
  have hgone : AuthWorld.isTokenBlacklisted { w with now := u } tok.jti = false := by
    have halive := (Expiry.alive_of_eq (t := u) hmade).not.mpr (not_lt_of_ge hlapsed)
    exact Bool.eq_false_iff.mpr halive
  obtain ⟨v, hexec, haccepted⟩ := AuthWorld.lapsed_accepts cfg hwait htok hrev
    (decodeToken_iff.mpr hu) hgone
  intro hout
  have hexec' : Run.exec (AuthWorld.step cfg) w
      (.tick (u - now) :: AuthWorld.useOf tok w.requests.length) = some v := by
    rw [Run.exec_cons, htick]
    exact hexec
  exact (hout _).exec hexec' haccepted

/-- A token that is first revoked by a step of a run is never accepted from a later request,
exactly if its `exp` has come by then. -/
theorem revokedStays_iff (cfg : JwtConfig) (t : ℚ) (events : List AuthEvent) (w w' : AuthWorld)
    (ev : AuthEvent) (tok : Token)
    (hrun : Run.exec (AuthWorld.step cfg) (AuthWorld.init t) events = some w)
    (htok : tok ∈ w.tokens) (hfirst : tok.jti ∉ w.revoked)
    (hs : w.step cfg ev = some w') (hrev : tok.jti ∈ w'.revoked) :
    StaysOut cfg tok w' ↔ (tok.exp : ℚ) ≤ w.now := by
  have hall : Run.AllStates (AuthWorld.step cfg) AuthWorld.Sound (AuthWorld.init t) events :=
    Run.AllStates.of_step (fun _ _ _ hw hs => AuthWorld.sound_step hw hs) (AuthWorld.sound_init t) _
  have hsound : w.Sound := hall.exec hrun
  have hsound' : w'.Sound := AuthWorld.sound_step hsound hs
  obtain ⟨hentry, hnone⟩ := AuthWorld.first_revocation hsound htok hfirst hs hrev
  constructor
  · intro hout
    by_contra hlt
    exact not_staysOut_of_lt hsound' hrev hentry hnone.mem (lt_of_not_ge hlt) hout
  · intro hle
    exact staysOut_of_le hsound' hentry hnone hle

/-- A user with a pair of tokens; the first one is the access token. -/
def newLogin : List AuthEvent := [.addUser 7, .login 7]

/-- That access token, as issued at time zero. -/
def firstAccessToken : Token := ⟨0, .access, 7, 1800⟩

/-- A logout in the last second of the token, up to its write to the blacklist. -/
def lastSecond : List AuthEvent :=
  newLogin ++ [.tick 1800, .begin (.logout none) firstAccessToken, .load 0]

/-- That write keeps the token out for good. -/
theorem revokedStays_lastSecond :
    ∃ w w', Run.exec (AuthWorld.step {}) (AuthWorld.init 0) lastSecond = some w ∧
      w.step {} (.revoke 0) = some w' ∧ StaysOut {} firstAccessToken w' := by
  have hrun : (Run.exec (AuthWorld.step {}) (AuthWorld.init 0) lastSecond).any (fun w =>
      firstAccessToken ∈ w.tokens ∧ firstAccessToken.jti ∉ w.revoked ∧
        ((firstAccessToken.exp : ℚ) ≤ w.now) ∧
        (w.step {} (.revoke 0)).any fun w' => firstAccessToken.jti ∈ w'.revoked) = true := by
    decide +kernel
  obtain ⟨w, hw, hq⟩ := (Option.any_eq_true _ _).mp hrun
  obtain ⟨htok, hfirst, hle, hany⟩ := of_decide_eq_true hq
  obtain ⟨w', hw', hrev⟩ := (Option.any_eq_true _ _).mp hany
  exact ⟨w, w', hw, hw', (revokedStays_iff {} 0 lastSecond w w' (.revoke 0) firstAccessToken hw
    htok hfirst hw' (of_decide_eq_true hrev)).mpr hle⟩

/-- A logout at once. At `exp` the entry is gone, and the token is accepted. -/
theorem logout_acceptedAgain :
    ¬ Run.AllStates (AuthWorld.step {}) (fun w => w.acceptedAgain = []) (AuthWorld.init 0)
      (newLogin ++ [.begin (.logout none) firstAccessToken, .load 0, .revoke 0, .tick 1800,
        .begin .use firstAccessToken, .load 1]) := by
  refine Run.not_allStates (q := fun w => w.acceptedAgain = [0]) (fun w hw => ?_) ?_
  · refine decide_eq_false fun hq => ?_
    rw [hw] at hq
    cases hq
  · decide +kernel

end LeadPulse
