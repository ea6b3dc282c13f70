import LeadPulse.Lib.Pool
import LeadPulse.Lib.Run
import LeadPulse.Lib.Table

/-!
# Logging in with Google

`google_callback` from the point where the claims of Google are verified: it looks for the user
with the email, creates or links one, and issues tokens. Any number of callbacks may interleave
between their statements; a commit is one step, and the unique columns of `users` may make it
fail.

`secondAccount_misused` is a run in which a second Google account gets the tokens of a user whom
the first one has just created: after its `INSERT` has failed, the callback fetches the user
again and does not compare `google_id`. `identityKept_of_sameAccount` says when a user stays with
one account: in every run in which no link is written over another one, and the user that is
fetched again has the account of the callback.
-/

namespace LeadPulse

inductive UserRole where
  | admin
  | user
  | viewer
deriving DecidableEq, Repr

structure User where
  id : ℕ
  username : String
  email : String
  passwordHash : Option String := none
  googleId : Option String := none
  role : UserRole := .user
deriving DecidableEq, Repr

namespace User

/-- The Google account of a user; `None` and the empty string are none. -/
def linkedTo (u : User) : Option String :=
  match u.googleId with
  | some "" => none
  | googleId => googleId

/-- Two rows that respect the primary key and the unique columns. -/
structure Distinct (u v : User) : Prop where
  id : u.id ≠ v.id
  username : u.username ≠ v.username
  email : u.email ≠ v.email
  googleId : u.googleId = none ∨ u.googleId ≠ v.googleId

theorem linkedTo_some {u : User} {sub : String} (h : u.googleId = some sub) (hsub : sub ≠ "") :
    u.linkedTo = some sub := by
  unfold linkedTo
  rw [h]
  split
  · rename_i heq
    exact absurd (Option.some.inj heq) hsub
  · rfl

end User

/-- The table `users`, with the sequence that its ids come from. -/
structure UserTable where
  rows : List User
  nextId : ℕ
  id_lt : ∀ u ∈ rows, u.id < nextId
  distinct : rows.Pairwise User.Distinct

namespace UserTable

variable {table : UserTable}

def get (table : UserTable) (id : ℕ) : Option User := Table.get User.id table.rows id

/-- `select(User).where(User.email == email)`. -/
def findEmail (table : UserTable) (email : String) : Option User :=
  table.rows.find? fun u => u.email = email

theorem keyed (table : UserTable) : Table.Keyed User.id table.rows :=
  List.pairwise_map.mpr (table.distinct.imp fun h => h.id)

theorem get_of_findEmail {email : String} {u : User} (h : table.findEmail email = some u) :
    table.get u.id = some u :=
  Table.get_of_mem table.keyed (List.mem_of_find?_eq_some h)

/-- A user that an `INSERT` may add. -/
def Admits (table : UserTable) (username email sub : String) : Prop :=
  ∀ u ∈ table.rows, u.username ≠ username ∧ u.email ≠ email ∧ u.googleId ≠ some sub

instance (table : UserTable) (username email sub : String) :
    Decidable (table.Admits username email sub) :=
  inferInstanceAs (Decidable (∀ _ ∈ _, _))

/-- The row of a new user. -/
def newUser (table : UserTable) (email sub : String) : User where
  id := table.nextId
  username := email
  email := email
  googleId := some sub
  role := .admin

/-- The `INSERT` of a new user, committed. -/
def insert (table : UserTable) (email sub : String) (h : table.Admits email email sub) :
    UserTable where
  rows := table.rows ++ [table.newUser email sub]
  nextId := table.nextId + 1
  id_lt := Table.lt_append table.id_lt rfl
  distinct := by
    rw [List.pairwise_append]
    refine ⟨table.distinct, List.pairwise_singleton _ _, fun u hu v hv => ?_⟩
    obtain rfl := List.mem_singleton.mp hv
    have hid := table.id_lt u hu
    obtain ⟨husername, hemail, hgoogle⟩ := h u hu
    exact ⟨Nat.ne_of_lt hid, husername, hemail, .inr hgoogle⟩

/-- No other user has the account. -/
def Free (table : UserTable) (id : ℕ) (sub : String) : Prop :=
  ∀ u ∈ table.rows, u.id ≠ id → u.googleId ≠ some sub

instance (table : UserTable) (id : ℕ) (sub : String) : Decidable (table.Free id sub) :=
  inferInstanceAs (Decidable (∀ _ ∈ _, _))

def setGoogleId (sub : String) (u : User) : User := { u with googleId := some sub }

/-- The `UPDATE` that links a user, committed. -/
def link (table : UserTable) (id : ℕ) (sub : String) (h : table.Free id sub) : UserTable where
  rows := Table.modify User.id table.rows id (setGoogleId sub)
  nextId := table.nextId
  id_lt := Table.lt_map table.id_lt (Table.key_modify fun _ => rfl)
  distinct := by
    refine List.pairwise_map.mpr (table.distinct.imp_of_mem fun {u v} hu hv huv => ?_)
    -- of two rows at most one is the linked one, and the other has another account
    by_cases hui : u.id = id
    · have hvi : v.id ≠ id := fun hvi => huv.id (hui.trans hvi.symm)
      rw [if_pos hui, if_neg hvi]
      exact ⟨huv.id, huv.username, huv.email, .inr (h v hv hvi).symm⟩
    · by_cases hvi : v.id = id
      · rw [if_neg hui, if_pos hvi]
        exact ⟨huv.id, huv.username, huv.email, .inr (h u hu hui)⟩
      · rw [if_neg hui, if_neg hvi]
        exact huv

theorem get_insert {email sub : String} (h : table.Admits email email sub) :
    (table.insert email sub h).get table.nextId = some (table.newUser email sub) := by
  have hnone : Table.get User.id table.rows table.nextId = none := Table.get_of_lt table.id_lt
  show Table.get User.id (table.rows ++ [_]) table.nextId = _
  rw [Table.get_append_of_none hnone]
  exact if_pos rfl

theorem get_insert_of_some {email sub : String} {id : ℕ} {u : User}
    (h : table.Admits email email sub) (hu : table.get id = some u) :
    (table.insert email sub h).get id = some u :=
  Table.get_append_of_some hu

theorem get_link {id j : ℕ} {sub : String} (h : table.Free id sub) :
    (table.link id sub h).get j =
      if j = id then (table.get j).map (setGoogleId sub) else table.get j :=
  Table.get_modify fun _ => rfl

end UserTable

/-! ## The callbacks -/

/-- The claims of an ID token that Google has signed. -/
structure GoogleClaims where
  email : String
  sub : String
  sub_ne : sub ≠ ""

instance : DecidableEq GoogleClaims := fun a b =>
  decidable_of_iff (a.email = b.email ∧ a.sub = b.sub) (by cases a; cases b; simp)

inductive CallbackPhase where
  /-- Before the query for the email. -/
  | finding
  /-- Before the commit of a new user. -/
  | creating
  /-- After an `IntegrityError`, before the query is made again. -/
  | refetching
  /-- Before the commit that links the user it has loaded. -/
  | linking (user : User)
  /-- About to issue tokens. -/
  | issuing (user : User)
  /-- Redirected with tokens for a user. -/
  | loggedIn (userId : ℕ) (role : UserRole) (email : String)
  /-- Redirected with an error. -/
  | failed (error : String)
  /-- An exception, which the server answers with 500. -/
  | raised
deriving DecidableEq

structure Callback where
  claims : GoogleClaims
  phase : CallbackPhase
deriving DecidableEq

structure GoogleWorld where
  users : UserTable
  callbacks : List Callback
  /-- Every link that a user has had, with those of the start. -/
  links : List (ℕ × String)
  /-- The users for whom tokens were issued to an account that is not theirs: it is not the one
  in the committed row, or the user has been linked to another one. -/
  misused : List ℕ

inductive GoogleEvent where
  | callback (claims : GoogleClaims)
  /-- The query, the commit, the query after a failed commit, and the answer of a callback. -/
  | find (i : ℕ)
  | commit (i : ℕ)
  | refetch (i : ℕ)
  | issue (i : ℕ)
deriving DecidableEq

namespace GoogleWorld

def init (users : UserTable) : GoogleWorld where
  users := users
  callbacks := []
  links := users.rows.filterMap fun u => u.linkedTo.map fun sub => (u.id, sub)
  misused := []

def setPhase (w : GoogleWorld) (i : ℕ) (claims : GoogleClaims) (phase : CallbackPhase) :
    GoogleWorld :=
  { w with callbacks := w.callbacks.set i ⟨claims, phase⟩ }

/-- What the query for the email leads to. -/
def found (claims : GoogleClaims) : Option User → CallbackPhase
  | none => .creating
  | some user =>
    match user.linkedTo with
    | some googleId =>
      if googleId ≠ claims.sub then .failed "account_mismatch" else .issuing user
    | none => .linking user

/-- What the query after the `IntegrityError` leads to. -/
def refetched : Option User → CallbackPhase
  | none => .failed "token_exchange_failed"
  | some user => .issuing user

/-- The commit of a new user. -/
def commitUser (w : GoogleWorld) (i : ℕ) (claims : GoogleClaims) : GoogleWorld :=
  if h : w.users.Admits claims.email claims.email claims.sub then
    { w with
      users := w.users.insert claims.email claims.sub h
      callbacks := w.callbacks.set i
        ⟨claims, .issuing (w.users.newUser claims.email claims.sub)⟩
      links := w.links ++ [(w.users.nextId, claims.sub)] }
  else w.setPhase i claims .refetching

/-- The commit of a link; its `IntegrityError` is not caught. -/
def commitLink (w : GoogleWorld) (i : ℕ) (claims : GoogleClaims) (user : User) : GoogleWorld :=
  if h : w.users.Free user.id claims.sub then
    { w with
      users := w.users.link user.id claims.sub h
      callbacks := w.callbacks.set i
        ⟨claims, .issuing (UserTable.setGoogleId claims.sub user)⟩
      links := w.links ++ [(user.id, claims.sub)] }
  else w.setPhase i claims .raised

/-- The user is linked to the account in the committed row, and has never been to another. -/
def isTheirs (w : GoogleWorld) (userId : ℕ) (sub : String) : Bool :=
  (w.users.get userId).any (fun u => u.googleId = some sub) ∧
    ∀ l ∈ w.links, l.1 = userId → l.2 = sub

def issue (w : GoogleWorld) (i : ℕ) (claims : GoogleClaims) (user : User) : GoogleWorld :=
  { w.setPhase i claims (.loggedIn user.id user.role claims.email) with
    misused := if w.isTheirs user.id claims.sub then w.misused else w.misused ++ [user.id] }

def resume (w : GoogleWorld) (i : ℕ) (claims : GoogleClaims) :
    CallbackPhase → GoogleEvent → Option GoogleWorld
  | .finding, .find _ =>
    some (w.setPhase i claims (found claims (w.users.findEmail claims.email)))
  | .creating, .commit _ => some (w.commitUser i claims)
  | .refetching, .refetch _ =>
    some (w.setPhase i claims (refetched (w.users.findEmail claims.email)))
  | .linking user, .commit _ => some (w.commitLink i claims user)
  | .issuing user, .issue _ => some (w.issue i claims user)
  | _, _ => none

def step (w : GoogleWorld) (ev : GoogleEvent) : Option GoogleWorld :=
  match ev with
  | .callback claims => some { w with callbacks := w.callbacks ++ [⟨claims, .finding⟩] }
  | .find i | .commit i | .refetch i | .issue i =>
    w.callbacks[i]?.bind fun c => w.resume i c.claims c.phase ev

end GoogleWorld

/-! ## The property and its condition -/

/-- Nobody has got the tokens of a user who is not theirs. -/
def IdentityKept (w : GoogleWorld) : Prop := w.misused = []

/-- A link is written to a row that has none, or the same one, unless its commit fails; and the
user that is fetched again after a failed `INSERT` has the account of the callback. -/
def sameAccount (w : GoogleWorld) : GoogleEvent → Bool
  | .commit i =>
    match w.callbacks[i]? with
    | some ⟨claims, .linking user⟩ => ¬ w.users.Free user.id claims.sub ∨
        (w.users.get user.id).all fun row =>
          row.linkedTo = none ∨ row.linkedTo = some claims.sub
    | _ => true
  | .refetch i =>
    match w.callbacks[i]? with
    | some ⟨claims, .refetching⟩ =>
      (w.users.findEmail claims.email).all fun user => user.googleId = some claims.sub
    | _ => true
  | _ => true

/-! ## The invariant -/

/-- The committed row of a user has the account. -/
def UserTable.Linked (table : UserTable) (id : ℕ) (sub : String) : Prop :=
  ∃ row, table.get id = some row ∧ row.linkedTo = some sub

theorem User.googleId_of_linkedTo {u : User} {sub : String} (h : u.linkedTo = some sub) :
    u.googleId = some sub := by
  unfold linkedTo at h
  split at h
  · cases h
  · exact h

namespace UserTable

variable {table : UserTable} {id : ℕ} {sub : String}

theorem Linked.insert {email sub' : String} (h : table.Linked id sub)
    (hadmits : table.Admits email email sub') :
    (table.insert email sub' hadmits).Linked id sub := by
  obtain ⟨row, hrow, hlinked⟩ := h
  exact ⟨row, get_insert_of_some hadmits hrow, hlinked⟩

/-- A link stays when no other one is written over it. -/
theorem Linked.link {id' : ℕ} {sub' : String} (h : table.Linked id sub)
    (hfree : table.Free id' sub') (hsub : sub' ≠ "")
    (hsame : ∀ row, table.get id' = some row →
      row.linkedTo = none ∨ row.linkedTo = some sub') :
    (table.link id' sub' hfree).Linked id sub := by
  obtain ⟨row, hrow, hlinked⟩ := h
  by_cases hid : id = id'
  · subst hid
    refine ⟨setGoogleId sub' row, ?_, ?_⟩
    · rw [get_link, if_pos rfl, hrow]
      rfl
    · rw [User.linkedTo_some rfl hsub]
      rcases hsame row hrow with hnone | hsome
      · rw [hlinked] at hnone
        cases hnone
      · exact hsome.symm.trans hlinked
  · refine ⟨row, ?_, hlinked⟩
    rw [get_link, if_neg hid]
    exact hrow

end UserTable

/-- What is known of a callback in each phase. -/
def CallbackInv (users : UserTable) (c : Callback) : Prop :=
  match c.phase with
  | .linking user => (users.get user.id).isSome = true
  | .issuing user => users.Linked user.id c.claims.sub
  | _ => True

namespace GoogleWorld

variable {w w' : GoogleWorld} {ev : GoogleEvent} {i : ℕ} {claims : GoogleClaims} {user : User}

structure Inv (w : GoogleWorld) : Prop where
  links : ∀ l ∈ w.links, w.users.Linked l.1 l.2
  callbacks : Pool.Each (CallbackInv w.users) w.callbacks
  misused : w.misused = []

theorem inv_init (users : UserTable) : (init users).Inv where
  links := by
    intro l hl
    obtain ⟨u, hu, hlink⟩ := List.mem_filterMap.mp hl
    obtain ⟨sub, hsub, rfl⟩ := Option.map_eq_some_iff.mp hlink
    exact ⟨u, Table.get_of_mem users.keyed hu, hsub⟩
  callbacks := Pool.Each.nil
  misused := rfl

theorem inv_setPhase {phase : CallbackPhase} (h : w.Inv)
    (hphase : CallbackInv w.users ⟨claims, phase⟩) : (w.setPhase i claims phase).Inv where
  links := h.links
  callbacks := h.callbacks.set hphase
  misused := h.misused

/-- A commit that keeps the links of all users, and adds one. -/
theorem inv_commit {users : UserTable} (h : w.Inv)
    (hlinked : ∀ id sub, w.users.Linked id sub → users.Linked id sub)
    (hsome : ∀ id, (w.users.get id).isSome = true → (users.get id).isSome = true)
    (hnew : users.Linked user.id claims.sub) :
    Inv { w with
      users := users
      callbacks := w.callbacks.set i ⟨claims, .issuing user⟩
      links := w.links ++ [(user.id, claims.sub)] } where
  links := by
    intro l hl
    rcases List.mem_append.mp hl with hold | hlast
    · exact hlinked _ _ (h.links l hold)
    · obtain rfl := List.mem_singleton.mp hlast
      exact hnew
  callbacks := by
    have hold : Pool.Each (CallbackInv users) w.callbacks := by
      refine h.callbacks.mono fun c hc => ?_
      unfold CallbackInv at hc ⊢
      split at hc
      · exact hsome _ hc
      · exact hlinked _ _ hc
      · trivial
    exact hold.set hnew
  misused := h.misused

theorem inv_find (h : w.Inv) :
    (w.setPhase i claims (found claims (w.users.findEmail claims.email))).Inv := by
  refine inv_setPhase h ?_
  cases hfind : w.users.findEmail claims.email with
  | none => trivial
  | some user =>
    have hget := UserTable.get_of_findEmail hfind
    unfold found
    dsimp only
    split
    · rename_i googleId hlinked
      by_cases hsub : googleId ≠ claims.sub
      · rw [if_pos hsub]
        trivial
      · rw [if_neg hsub]
        have hsub : googleId = claims.sub := not_not.mp hsub
        rw [hsub] at hlinked
        exact ⟨user, hget, hlinked⟩
    · show (w.users.get user.id).isSome = true
      rw [hget]
      rfl

theorem inv_commitUser (h : w.Inv) : (w.commitUser i claims).Inv := by
  unfold commitUser
  split
  · rename_i hadmits
    refine inv_commit h (fun id sub hid => hid.insert hadmits) (fun id hid => ?_) ?_
    · obtain ⟨row, hrow⟩ := Option.isSome_iff_exists.mp hid
      rw [UserTable.get_insert_of_some hadmits hrow]
      rfl
    · exact ⟨_, UserTable.get_insert hadmits, User.linkedTo_some rfl claims.sub_ne⟩
  · exact inv_setPhase h trivial

/-- The commit of a link. Here the row must not have got another account in the meantime. -/
theorem inv_commitLink (h : w.Inv) (hrow : (w.users.get user.id).isSome = true)
    (hc : ¬ w.users.Free user.id claims.sub ∨ (w.users.get user.id).all (fun row =>
      row.linkedTo = none ∨ row.linkedTo = some claims.sub) = true) :
    (w.commitLink i claims user).Inv := by
  unfold commitLink
  split
  · rename_i hfree
    have hsame : ∀ row, w.users.get user.id = some row →
        row.linkedTo = none ∨ row.linkedTo = some claims.sub := by
      intro row hget
      rcases hc with hno | hall
      · exact absurd hfree hno
      · rw [hget] at hall
        exact of_decide_eq_true hall
    refine inv_commit h (fun id sub hid => hid.link hfree claims.sub_ne hsame) (fun id hid => ?_) ?_
    · rw [UserTable.get_link]
      split
      · rw [Option.isSome_map]
        exact hid
      · exact hid
    · obtain ⟨row, hget⟩ := Option.isSome_iff_exists.mp hrow
      refine ⟨UserTable.setGoogleId claims.sub row, ?_, User.linkedTo_some rfl claims.sub_ne⟩
      show (w.users.link user.id claims.sub hfree).get user.id = _
      rw [UserTable.get_link, if_pos rfl, hget]
      rfl
  · exact inv_setPhase h trivial

theorem inv_refetch (h : w.Inv) (hc : (w.users.findEmail claims.email).all (fun user =>
      user.googleId = some claims.sub) = true) :
    (w.setPhase i claims (refetched (w.users.findEmail claims.email))).Inv := by
  refine inv_setPhase h ?_
  cases hfind : w.users.findEmail claims.email with
  | none => trivial
  | some user =>
    rw [hfind] at hc
    have hgoogle : user.googleId = some claims.sub := of_decide_eq_true hc
    exact ⟨user, UserTable.get_of_findEmail hfind, User.linkedTo_some hgoogle claims.sub_ne⟩

/-- A user who is linked to the account is theirs: all links are those of the committed rows. -/
theorem isTheirs_of_linked (h : w.Inv) {sub : String} (hlinked : w.users.Linked user.id sub) :
    w.isTheirs user.id sub = true := by
  obtain ⟨row, hget, hrow⟩ := hlinked
  refine decide_eq_true ⟨?_, fun l hl hid => ?_⟩
  · rw [hget]
    exact decide_eq_true (User.googleId_of_linkedTo hrow)
  · obtain ⟨row', hget', hrow'⟩ := h.links l hl
    rw [hid, hget] at hget'
    cases hget'
    rw [hrow] at hrow'
    exact (Option.some.inj hrow').symm

theorem inv_issue (h : w.Inv) (hlinked : w.users.Linked user.id claims.sub) :
    (w.issue i claims user).Inv where
  links := h.links
  callbacks := h.callbacks.set trivial
  misused := by
    show (if w.isTheirs user.id claims.sub = true then w.misused else _) = []
    rw [if_pos (isTheirs_of_linked h hlinked)]
    exact h.misused

theorem inv_step (h : w.Inv) (hc : sameAccount w ev = true) (hs : w.step ev = some w') :
    w'.Inv := by
  cases ev with
  | callback claims =>
    cases hs
    exact ⟨h.links, h.callbacks.append trivial, h.misused⟩
  | find i =>
    obtain ⟨⟨claims, phase⟩, hi, hs⟩ := Option.bind_eq_some_iff.mp hs
    cases phase <;> cases hs
    exact inv_find h
  | commit i =>
    obtain ⟨⟨claims, phase⟩, hi, hs⟩ := Option.bind_eq_some_iff.mp hs
    have hcallback := h.callbacks.get hi
    cases phase with
    | creating =>
      cases hs
      exact inv_commitUser h
    | linking user =>
      cases hs
      simp only [sameAccount, hi] at hc
      exact inv_commitLink h hcallback (of_decide_eq_true hc)
    | _ => cases hs
  | refetch i =>
    obtain ⟨⟨claims, phase⟩, hi, hs⟩ := Option.bind_eq_some_iff.mp hs
    cases phase with
    | refetching =>
      cases hs
      simp only [sameAccount, hi] at hc
      exact inv_refetch h hc
    | _ => cases hs
  | issue i =>
    obtain ⟨⟨claims, phase⟩, hi, hs⟩ := Option.bind_eq_some_iff.mp hs
    have hcallback := h.callbacks.get hi
    cases phase with
    | issuing user =>
      cases hs
      exact inv_issue h hcallback
    | _ => cases hs

end GoogleWorld

/-! ## Runs -/

/-- If no link is written over another one, and a user who is fetched again has the account of
the callback, tokens are issued to the account of their user only. -/
theorem identityKept_of_sameAccount (users : UserTable) (events : List GoogleEvent)
    (h : Run.AllSteps GoogleWorld.step (fun w ev => sameAccount w ev = true)
      (GoogleWorld.init users) events) :
    Run.AllStates GoogleWorld.step IdentityKept (GoogleWorld.init users) events := by
  have hinv := Run.AllStates.of_inv (fun _ _ _ hw hc hs => GoogleWorld.inv_step hw hc hs)
    (GoogleWorld.inv_init users) h
  exact hinv.mono fun w hw => hw.misused

/-- A table without users. -/
def noUsers : UserTable where
  rows := []
  nextId := 1
  id_lt := fun _ hu => nomatch hu
  distinct := List.Pairwise.nil

/-- Two Google accounts with one email address. -/
def firstAccount : GoogleClaims := ⟨"a@example.com", "first", by decide⟩

def secondAccount : GoogleClaims := ⟨"a@example.com", "second", by decide⟩

/-- One after the other: the second account is refused. -/
theorem identityKept_sequential : Run.AllStates GoogleWorld.step IdentityKept
    (GoogleWorld.init noUsers) [.callback firstAccount, .find 0, .commit 0, .issue 0,
      .callback secondAccount, .find 1] :=
  identityKept_of_sameAccount noUsers _ (Run.AllSteps.of_check (fun _ _ h => h) (by decide +kernel))

/-- Both callbacks find no user; the first one creates it, and the second one, whose `INSERT`
fails, gets tokens for it. -/
theorem secondAccount_misused : ¬ Run.AllStates GoogleWorld.step IdentityKept
    (GoogleWorld.init noUsers) [.callback firstAccount, .callback secondAccount, .find 0, .find 1,
      .commit 0, .commit 1, .refetch 1, .issue 1] := by
  refine Run.not_allStates (q := fun w => w.misused = [1]) (fun w hw => ?_) ?_
  · refine decide_eq_false fun hq => ?_
    have hnil : w.misused = [] := hw
    rw [hq] at hnil
    cases hnil
  · decide +kernel

end LeadPulse
