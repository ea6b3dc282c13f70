import LeadPulse.Dedup.Merge
import LeadPulse.Scoring.Dimensions

/-!
# The contact waterfall

`EnrichmentService._run_contact_waterfall` (`services/enrichment.py`) calls up to four providers in
turn and stores what they find. A provider may be called or not, by what the ones before it have
found and by the time that is left; what a call answers, and when, is a parameter.

An exception of a provider ends its turn. The commit of what it has found comes after the `try`:
when the database refuses a row, the exception ends the waterfall. `Controlled` says which
providers are to be called, and what is to be in the table in the end; `controlled_iff` says when
it is so.
-/

namespace LeadPulse
namespace Enrichment

open PyStr Unseen
open Scoring (EmailStatus)

/-! ## Contacts -/

/-- A `Contact` that a provider has built. -/
structure FoundContact where
  name : List Char
  title : Option (List Char) := none
  email : Option (List Char) := none
  emailStatus : Option EmailStatus := none
  phone : Option (List Char) := none
  linkedinUrl : Option (List Char) := none
  source : String
  confidenceScore : ℚ
deriving DecidableEq, Repr

namespace FoundContact

/-- The row that is made of it. -/
def toContact (c : FoundContact) (id companyId : ℕ) : Contact where
  id := id
  companyId := companyId
  name := c.name
  title := c.title
  email := c.email
  phone := c.phone
  linkedinUrl := c.linkedinUrl

/-- A column `String(n)` takes the text. -/
def textFits (n : ℕ) (s : List Char) : Bool := s.length ≤ n && s.all (· ≠ Char.ofNat 0)

/-- The columns of `contacts` take the row. -/
def fits (c : FoundContact) : Bool :=
  textFits 255 c.name && c.title.all (textFits 255) && c.email.all (textFits 320) &&
    c.phone.all (textFits 50) && c.linkedinUrl.all (textFits 500) && c.source.length ≤ 100

/-- `contact.email.lower()`, if there is an email. -/
def emailKey (U : Unicode) (c : FoundContact) : Option (List Char) :=
  Dedup.emailKey U (c.toContact 0 0)

end FoundContact

/-- The table `contacts` and the sequence of its ids. -/
structure ContactStore where
  contacts : List Contact
  nextId : ℕ
  fresh : ∀ c ∈ contacts, c.id < nextId
deriving DecidableEq

namespace ContactStore

/-- The contacts of a company. -/
def ofCompany (store : ContactStore) (companyId : ℕ) : List Contact :=
  store.contacts.filter fun c => c.companyId = companyId

/-- `existing_emails` before the loop of `_store_contacts`. -/
def existingEmails (U : Unicode) (store : ContactStore) (companyId : ℕ) : List (List Char) :=
  (store.ofCompany companyId).filterMap (Dedup.emailKey U)

/-- `session.add(contact)`. -/
def add (companyId : ℕ) (store : ContactStore) (c : FoundContact) : ContactStore where
  contacts := store.contacts ++ [c.toContact store.nextId companyId]
  nextId := store.nextId + 1
  fresh := by
    intro d hd
    rcases List.mem_append.mp hd with hd | hd
    · exact Nat.lt_succ_of_lt (store.fresh d hd)
    · rw [List.mem_singleton.mp hd]
      exact Nat.lt_succ_self _

/-- The contacts that `_store_contacts` adds. -/
def newContacts (U : Unicode) (store : ContactStore) (companyId : ℕ)
    (found : List FoundContact) : List FoundContact :=
  unseen (FoundContact.emailKey U) (store.existingEmails U companyId) found

/-- `_store_contacts`, with the number of rows added. One row that the database refuses, and the
commit raises. -/
def storeContacts (U : Unicode) (store : ContactStore) (companyId : ℕ)
    (found : List FoundContact) : Option (ContactStore × ℕ) :=
  let new := store.newContacts U companyId found
  if new.all FoundContact.fits then some (new.foldl (add companyId) store, new.length) else none

end ContactStore

/-! ## Providers -/

inductive Provider where
  | hunter
  | gemini
  | scrapin
  | scrapedContent
deriving DecidableEq, Repr

namespace Provider

/-- The supplement. -/
def alwaysRun : Provider → Bool
  | gemini => true
  | hunter | scrapin | scrapedContent => false

/-- `providers`, in the order of the loop. -/
def all : List Provider := [hunter, gemini, scrapin, scrapedContent]

/-- The providers whose turn comes before. -/
def before (p : Provider) : List Provider := all.takeWhile (· ≠ p)

end Provider

/-- What `asyncio.wait_for(self._try_provider(...))` comes to. -/
inductive Attempt where
  | found (contacts : List FoundContact)
  | timeout
  | apiError (message : String)
  | unexpectedError (message : String)
deriving DecidableEq, Repr

/-- One of the three `except` branches. -/
def Attempt.failed : Attempt → Bool
  | .found _ => false
  | .timeout | .apiError _ | .unexpectedError _ => true

/-- `_ENRICHMENT_TIMEOUT_SECONDS`. -/
def enrichmentTimeout : Time := 60000000

/-- `EnrichmentService`, with the providers that have a client. -/
structure EnrichmentService where
  targetTitles : List (List Char)
  configured : Provider → Bool

/-- What happens in a run: the answers, which may depend on the rows stored by then, and the time
that has elapsed at the turn of each provider. -/
structure Course where
  attempt : Provider → ContactStore → Attempt
  elapsed : Provider → Time
  elapsed_mono : ∀ p, ∀ q ∈ p.before, elapsed q ≤ elapsed p

/-- A run in no time. -/
def Course.prompt (attempt : Provider → ContactStore → Attempt) : Course where
  attempt := attempt
  elapsed _ := 0
  elapsed_mono _ _ _ := Int.le_refl 0

structure EnrichmentResult where
  companyId : ℕ
  contactsAdded : ℕ := 0
  providerUsed : Option Provider := none
  providersTried : List Provider := []
  verifiedFound : Bool := false
  error : Option String := none
deriving DecidableEq, Repr

structure WaterfallState where
  store : ContactStore
  result : EnrichmentResult
  /-- An exception has left the loop. -/
  raised : Bool := false
deriving DecidableEq

/-- Before the first turn. -/
def WaterfallState.start (companyId : ℕ) (store : ContactStore) : WaterfallState where
  store := store
  result := { companyId := companyId }

/-- `providers_tried.append(provider_name)`. -/
def WaterfallState.tried (s : WaterfallState) (p : Provider) : WaterfallState :=
  { s with result := { s.result with providersTried := s.result.providersTried ++ [p] } }

/-! ## The loop -/

/-- `_title_matches`. -/
def titleMatches (U : Unicode) (service : EnrichmentService) (title : List Char) : Bool :=
  (service.targetTitles.map U.lower).any fun kw => kw <:+: U.lower title

/-- A verified contact with a target title. -/
def isVerifiedTarget (U : Unicode) (service : EnrichmentService) (c : FoundContact) : Bool :=
  c.emailStatus = some .verified && c.title.getD [] ≠ [] &&
    titleMatches U service (c.title.getD [])

section

variable (U : Unicode) (service : EnrichmentService) (course : Course) (companyId : ℕ)

/-- `_remaining()` at the turn of a provider. -/
def remaining (p : Provider) : Time := max 0 (enrichmentTimeout - course.elapsed p)

/-- The rest of a turn, once a provider has been called. -/
def settle (p : Provider) (s : WaterfallState) : Attempt → WaterfallState
  | .timeout | .apiError _ | .unexpectedError _ | .found [] => s
  | .found contacts =>
    match s.store.storeContacts U companyId contacts with
    | none => { s with raised := true }
    | some (stored, added) =>
      { s with
        store := stored
        result := { s.result with
          contactsAdded := s.result.contactsAdded + added
          providerUsed := s.result.providerUsed.or (some p)
          verifiedFound := s.result.verifiedFound || contacts.any (isVerifiedTarget U service) } }

/-- A turn in which the provider is called. -/
def call (p : Provider) (s : WaterfallState) : WaterfallState :=
  settle U service companyId p (s.tried p) (course.attempt p s.store)

/-- The loop over the providers. -/
def waterfallLoop : List Provider → WaterfallState → WaterfallState
  | [], s => s
  | p :: ps, s =>
    if s.raised then s
    else if ¬service.configured p then waterfallLoop ps s
    else if s.result.verifiedFound ∧ ¬p.alwaysRun then waterfallLoop ps s
    else if remaining course p ≤ 0 then s
    else waterfallLoop ps (call U service course companyId p s)

/-- `_run_contact_waterfall`. -/
def runContactWaterfall (store : ContactStore) : WaterfallState :=
  waterfallLoop U service course companyId Provider.all (.start companyId store)

end

/-! ## What is stored -/

namespace ContactStore

variable {U : Unicode} {store : ContactStore} {companyId : ℕ} {found : List FoundContact}

/-- The rows of new contacts, with the ids from `n` on. -/
def numbered (companyId : ℕ) : ℕ → List FoundContact → List Contact
  | _, [] => []
  | n, c :: cs => c.toContact n companyId :: numbered companyId (n + 1) cs

theorem length_numbered (n : ℕ) : (numbered companyId n found).length = found.length := by
  induction found generalizing n with
  | nil => rfl
  | cons c cs ih => exact congrArg (· + 1) (ih (n + 1))

theorem mem_numbered {n : ℕ} {r : Contact} (h : r ∈ numbered companyId n found) :
    n ≤ r.id ∧ r.companyId = companyId ∧ ∃ c ∈ found, r = c.toContact r.id companyId := by
  induction found generalizing n with
  | nil => cases h
  | cons c cs ih =>
    rcases List.mem_cons.mp h with rfl | h
    · exact ⟨le_rfl, rfl, c, List.mem_cons_self, rfl⟩
    · obtain ⟨hle, howner, c', hc', hr⟩ := ih h
      exact ⟨Nat.le_of_succ_le hle, howner, c', List.mem_cons_of_mem c hc', hr⟩

theorem exists_mem_numbered (companyId n : ℕ) {c : FoundContact} (h : c ∈ found) :
    ∃ id, c.toContact id companyId ∈ numbered companyId n found := by
  induction found generalizing n with
  | nil => cases h
  | cons d cs ih =>
    rcases List.mem_cons.mp h with rfl | h
    · exact ⟨n, List.mem_cons_self⟩
    · obtain ⟨id, hid⟩ := ih (n + 1) h
      exact ⟨id, List.mem_cons_of_mem _ hid⟩

theorem nodup_numbered (n : ℕ) : ((numbered companyId n found).map (·.id)).Nodup := by
  induction found generalizing n with
  | nil => exact List.nodup_nil
  | cons c cs ih =>
    refine List.nodup_cons.mpr ⟨fun h => ?_, ih (n + 1)⟩
    obtain ⟨r, hr, hid⟩ := List.mem_map.mp h
    have hle : n + 1 ≤ r.id := (mem_numbered hr).1
    have heq : r.id = n := hid
    omega

theorem contacts_foldl_add : (found.foldl (add companyId) store).contacts =
    store.contacts ++ numbered companyId store.nextId found := by
  induction found generalizing store with
  | nil => exact (List.append_nil _).symm
  | cons c cs ih =>
    rw [List.foldl_cons, ih]
    show (store.contacts ++ [c.toContact store.nextId companyId]) ++
      numbered companyId (store.nextId + 1) cs = _
    rw [List.append_assoc]
    rfl

/-- The database takes every new row. -/
def Taken (U : Unicode) (store : ContactStore) (companyId : ℕ) (found : List FoundContact) :
    Prop := ∀ c ∈ store.newContacts U companyId found, c.fits = true

theorem storeContacts_of_taken (h : Taken U store companyId found) :
    store.storeContacts U companyId found =
      some ((store.newContacts U companyId found).foldl (add companyId) store,
        (store.newContacts U companyId found).length) :=
  if_pos (List.all_eq_true.mpr h)

theorem storeContacts_of_not_taken (h : ¬Taken U store companyId found) :
    store.storeContacts U companyId found = none :=
  if_neg fun hall => h (List.all_eq_true.mp hall)

theorem taken_nil : Taken U store companyId [] := fun _ hc => nomatch hc

/-- The table after `_store_contacts`. -/
theorem contacts_storeContacts {stored : ContactStore} {added : ℕ}
    (h : store.storeContacts U companyId found = some (stored, added)) :
    stored.contacts = store.contacts ++
        numbered companyId store.nextId (store.newContacts U companyId found) ∧
      added = (store.newContacts U companyId found).length := by
  by_cases htaken : Taken U store companyId found
  · rw [storeContacts_of_taken htaken] at h
    obtain ⟨rfl, rfl⟩ := Prod.mk.inj (Option.some.inj h)
    exact ⟨contacts_foldl_add, rfl⟩
  · rw [storeContacts_of_not_taken htaken] at h
    cases h

end ContactStore

/-- Rows of a company have been added, `n` of them. -/
structure Grows (companyId n : ℕ) (store store' : ContactStore) : Prop where
  contacts : ∃ new, store'.contacts = store.contacts ++ new ∧ new.length = n ∧
    (∀ c ∈ new, c.companyId = companyId ∧ store.nextId ≤ c.id) ∧ (new.map (·.id)).Nodup
  nextId : store.nextId ≤ store'.nextId

namespace Grows

variable {companyId m n : ℕ} {s s' s'' : ContactStore}

theorem refl (s : ContactStore) : Grows companyId 0 s s where
  contacts := ⟨[], (List.append_nil _).symm, rfl, by simp, List.nodup_nil⟩
  nextId := le_rfl

theorem trans (h : Grows companyId m s s') (h' : Grows companyId n s' s'') :
    Grows companyId (m + n) s s'' where
  contacts := by
    obtain ⟨new, hnew, hlength, hmem, hnodup⟩ := h.contacts
    obtain ⟨new', hnew', hlength', hmem', hnodup'⟩ := h'.contacts
    refine ⟨new ++ new', ?_, ?_, ?_, ?_⟩
    · rw [hnew', hnew, List.append_assoc]
    · rw [List.length_append, hlength, hlength']
    · intro c hc
      rcases List.mem_append.mp hc with hc | hc
      · exact hmem c hc
      · exact ⟨(hmem' c hc).1, h.nextId.trans (hmem' c hc).2⟩
    · rw [List.map_append]
      refine List.Nodup.append hnodup hnodup' ?_
      rw [List.disjoint_left]
      intro id hid hid'
      obtain ⟨c, hc, rfl⟩ := List.mem_map.mp hid
      obtain ⟨c', hc', heq⟩ := List.mem_map.mp hid'
      -- the first new rows were in the table when the second ones got their ids
      have hlt : c.id < s'.nextId := by
        apply s'.fresh
        rw [hnew]
        exact List.mem_append_right _ hc
      have hle := (hmem' c' hc').2
      have hid : c'.id = c.id := heq
      omega
  nextId := h.nextId.trans h'.nextId

theorem contacts_isPrefix (h : Grows companyId n s s') : s.contacts <+: s'.contacts := by
  obtain ⟨new, hnew, -⟩ := h.contacts
  exact ⟨new, hnew.symm⟩

theorem nextId_foldl_add (store : ContactStore) (found : List FoundContact) :
    (found.foldl (ContactStore.add companyId) store).nextId = store.nextId + found.length := by
  induction found generalizing store with
  | nil => rfl
  | cons c cs ih =>
    rw [List.foldl_cons, ih, List.length_cons]
    show store.nextId + 1 + cs.length = _
    omega

theorem addAll (store : ContactStore) (new : List FoundContact) :
    Grows companyId new.length store (new.foldl (ContactStore.add companyId) store) where
  contacts := by
    refine ⟨_, ContactStore.contacts_foldl_add, ContactStore.length_numbered _, ?_,
      ContactStore.nodup_numbered _⟩
    intro c hc
    obtain ⟨hle, howner, -⟩ := ContactStore.mem_numbered hc
    exact ⟨howner, hle⟩
  nextId := by
    rw [nextId_foldl_add]
    exact Nat.le_add_right _ _

end Grows

/-! ## The loop, turn by turn -/

section

variable {U : Unicode} {service : EnrichmentService} {course : Course} {companyId : ℕ}
  {p q : Provider} {ps : List Provider} {s : WaterfallState}

theorem settle_of_taken {contacts : List FoundContact} (hne : contacts ≠ [])
    (h : s.store.Taken U companyId contacts) :
    settle U service companyId p s (.found contacts) =
      { s with
        store := (s.store.newContacts U companyId contacts).foldl (.add companyId) s.store
        result := { s.result with
          contactsAdded := s.result.contactsAdded +
            (s.store.newContacts U companyId contacts).length
          providerUsed := s.result.providerUsed.or (some p)
          verifiedFound := s.result.verifiedFound ||
            contacts.any (isVerifiedTarget U service) } } := by
  cases contacts with
  | nil => exact absurd rfl hne
  | cons c cs =>
    unfold settle
    dsimp only
    rw [ContactStore.storeContacts_of_taken h]

theorem settle_of_not_taken {contacts : List FoundContact}
    (h : ¬s.store.Taken U companyId contacts) :
    settle U service companyId p s (.found contacts) = { s with raised := true } := by
  cases contacts with
  | nil => exact absurd ContactStore.taken_nil h
  | cons c cs =>
    unfold settle
    dsimp only
    rw [ContactStore.storeContacts_of_not_taken h]

/-- A call adds its provider to the ones that were tried, and the rows it counts to the table. -/
theorem call_spec (U : Unicode) (service : EnrichmentService) (course : Course) (companyId : ℕ)
    (p : Provider) (s : WaterfallState) : ∃ added,
    Grows companyId added s.store (call U service course companyId p s).store ∧
    (call U service course companyId p s).result.contactsAdded = s.result.contactsAdded + added ∧
    (call U service course companyId p s).result.providersTried =
      s.result.providersTried ++ [p] := by
  unfold call
  cases course.attempt p s.store with
  | timeout => exact ⟨0, .refl _, rfl, rfl⟩
  | apiError message => exact ⟨0, .refl _, rfl, rfl⟩
  | unexpectedError message => exact ⟨0, .refl _, rfl, rfl⟩
  | found contacts =>
    cases contacts with
    | nil => exact ⟨0, .refl _, rfl, rfl⟩
    | cons c cs =>
      by_cases htaken : s.store.Taken U companyId (c :: cs)
      · rw [settle_of_taken (s := s.tried p) (List.cons_ne_nil c cs) htaken]
        exact ⟨_, .addAll _ _, rfl, rfl⟩
      · rw [settle_of_not_taken (s := s.tried p) htaken]
        exact ⟨0, .refl _, rfl, rfl⟩

/-- It raises if the database refuses what has been found, and verified contacts are noted if it
does not. -/
theorem call_flags (U : Unicode) (service : EnrichmentService) (course : Course) (companyId : ℕ)
    (p : Provider) (s : WaterfallState) :
    ((call U service course companyId p s).raised = true ↔ s.raised = true ∨
      ∃ contacts, course.attempt p s.store = .found contacts ∧
        ¬s.store.Taken U companyId contacts) ∧
    ((call U service course companyId p s).result.verifiedFound = true ↔
      s.result.verifiedFound = true ∨ ∃ contacts, course.attempt p s.store = .found contacts ∧
        s.store.Taken U companyId contacts ∧
        ∃ c ∈ contacts, isVerifiedTarget U service c = true) := by
  unfold call
  cases course.attempt p s.store with
  | timeout => simp [settle, WaterfallState.tried]
  | apiError message => simp [settle, WaterfallState.tried]
  | unexpectedError message => simp [settle, WaterfallState.tried]
  | found contacts =>
    cases contacts with
    | nil => simp [settle, WaterfallState.tried, ContactStore.taken_nil]
    | cons c cs =>
      by_cases htaken : s.store.Taken U companyId (c :: cs)
      · rw [settle_of_taken (s := s.tried p) (List.cons_ne_nil c cs) htaken]
        simp [WaterfallState.tried, htaken]
      · rw [settle_of_not_taken (s := s.tried p) htaken]
        simp [WaterfallState.tried, htaken]

/-- After an exception there are no more turns. -/
theorem waterfallLoop_of_raised (h : s.raised = true) :
    waterfallLoop U service course companyId ps s = s := by
  cases ps with
  | nil => rfl
  | cons p ps => rw [waterfallLoop, if_pos h]

theorem waterfallLoop_of_unconfigured (h : service.configured p = false) :
    waterfallLoop U service course companyId (p :: ps) s =
      waterfallLoop U service course companyId ps s := by
  rw [waterfallLoop]
  split
  · rename_i hraised
    exact (waterfallLoop_of_raised hraised).symm
  · rw [if_pos (by simp [h])]

theorem waterfallLoop_of_verified (h : s.result.verifiedFound = true) (hp : p.alwaysRun = false) :
    waterfallLoop U service course companyId (p :: ps) s =
      waterfallLoop U service course companyId ps s := by
  rw [waterfallLoop]
  split
  · rename_i hraised
    exact (waterfallLoop_of_raised hraised).symm
  · split
    · rfl
    · rw [if_pos ⟨h, by simp [hp]⟩]

/-- Whether a provider is called at its turn, if time remains. -/
def Due (service : EnrichmentService) (p : Provider) (s : WaterfallState) : Prop :=
  s.raised = false ∧ service.configured p = true ∧
    (p.alwaysRun = false → s.result.verifiedFound = false)

theorem remaining_pos : 0 < remaining course p ↔ course.elapsed p < enrichmentTimeout := by
  unfold remaining Time at *
  omega

theorem waterfallLoop_of_due (h : Due service p s) (htime : course.elapsed p < enrichmentTimeout) :
    waterfallLoop U service course companyId (p :: ps) s =
      waterfallLoop U service course companyId ps (call U service course companyId p s) := by
  obtain ⟨hraised, hconfigured, hverified⟩ := h
  rw [waterfallLoop, if_neg (by simp [hraised]), if_neg (by simp [hconfigured]), if_neg, if_neg]
  · exact not_le.mpr (remaining_pos.mpr htime)
  · rintro ⟨hfound, hrun⟩
    rw [hverified (by simpa using hrun)] at hfound
    cases hfound

theorem waterfallLoop_of_not_due (h : ¬Due service p s) :
    waterfallLoop U service course companyId (p :: ps) s =
      waterfallLoop U service course companyId ps s := by
  by_cases hraised : s.raised = true
  · rw [waterfallLoop_of_raised hraised, waterfallLoop_of_raised hraised]
  have hraised : s.raised = false := by simpa using hraised
  by_cases hconfigured : service.configured p = true
  · by_cases hrun : p.alwaysRun = false
    · apply waterfallLoop_of_verified _ hrun
      by_contra hfound
      exact h ⟨hraised, hconfigured, fun _ => by simpa using hfound⟩
    · exact absurd ⟨hraised, hconfigured, fun hfalse => absurd hfalse hrun⟩ h
  · exact waterfallLoop_of_unconfigured (by simpa using hconfigured)

/-- Without time the loop is over as soon as a provider is due. -/
theorem waterfallLoop_of_timeout (h : Due service p s)
    (htime : ¬course.elapsed p < enrichmentTimeout) :
    waterfallLoop U service course companyId (p :: ps) s = s := by
  obtain ⟨hraised, hconfigured, hverified⟩ := h
  rw [waterfallLoop, if_neg (by simp [hraised]), if_neg (by simp [hconfigured]), if_neg, if_pos]
  · exact not_lt.mp fun hpos => htime (remaining_pos.mp hpos)
  · rintro ⟨hfound, hrun⟩
    rw [hverified (by simpa using hrun)] at hfound
    cases hfound

/-- What a property of the state needs to hold after the loop: calls keep it. -/
theorem waterfallLoop_induction {P : WaterfallState → Prop} (h : P s)
    (hcall : ∀ q ∈ ps, ∀ s, P s → Due service q s → course.elapsed q < enrichmentTimeout →
      P (call U service course companyId q s)) :
    P (waterfallLoop U service course companyId ps s) := by
  induction ps generalizing s with
  | nil => exact h
  | cons p ps ih =>
    have hrest := fun q hq => hcall q (List.mem_cons_of_mem p hq)
    by_cases hdue : Due service p s
    · by_cases htime : course.elapsed p < enrichmentTimeout
      · rw [waterfallLoop_of_due hdue htime]
        exact ih (hcall p List.mem_cons_self s h hdue htime) hrest
      · rw [waterfallLoop_of_timeout hdue htime]
        exact h
    · rw [waterfallLoop_of_not_due hdue]
      exact ih h hrest

/-- While there is time, the loop goes through. -/
theorem waterfallLoop_append {before : List Provider} (rest : List Provider)
    (htime : ∀ q ∈ before, course.elapsed q < enrichmentTimeout) :
    waterfallLoop U service course companyId (before ++ rest) s =
      waterfallLoop U service course companyId rest
        (waterfallLoop U service course companyId before s) := by
  induction before generalizing s with
  | nil => rfl
  | cons p before ih =>
    rw [List.forall_mem_cons] at htime
    rw [List.cons_append]
    by_cases hdue : Due service p s
    · rw [waterfallLoop_of_due hdue htime.1, waterfallLoop_of_due hdue htime.1, ih htime.2]
    · rw [waterfallLoop_of_not_due hdue, waterfallLoop_of_not_due hdue, ih htime.2]

/-- The rows of the table stay, and the count goes with the rows. -/
theorem waterfallLoop_grows (U : Unicode) (service : EnrichmentService) (course : Course)
    (companyId : ℕ) (ps : List Provider) (s : WaterfallState) : ∃ added,
    Grows companyId added s.store (waterfallLoop U service course companyId ps s).store ∧
      (waterfallLoop U service course companyId ps s).result.contactsAdded =
        s.result.contactsAdded + added := by
  apply waterfallLoop_induction (P := fun s' => ∃ added, Grows companyId added s.store s'.store ∧
    s'.result.contactsAdded = s.result.contactsAdded + added)
  · exact ⟨0, .refl _, rfl⟩
  · rintro q - s' ⟨added, hgrows, hcount⟩ - -
    obtain ⟨added', hgrows', hcount', _⟩ := call_spec U service course companyId q s'
    exact ⟨added + added', hgrows.trans hgrows', by rw [hcount', hcount, Nat.add_assoc]⟩

/-- Only providers of the list are called, and only while there is time. -/
theorem mem_providersTried
    (h : q ∈ (waterfallLoop U service course companyId ps s).result.providersTried) :
    q ∈ s.result.providersTried ∨
      q ∈ ps ∧ service.configured q = true ∧ course.elapsed q < enrichmentTimeout := by
  revert h
  apply waterfallLoop_induction (P := fun s' => q ∈ s'.result.providersTried →
    q ∈ s.result.providersTried ∨
      q ∈ ps ∧ service.configured q = true ∧ course.elapsed q < enrichmentTimeout)
  · exact Or.inl
  · intro p hp s' hs' hdue htime h
    obtain ⟨-, -, -, htried⟩ := call_spec U service course companyId p s'
    rw [htried, List.mem_append, List.mem_singleton] at h
    rcases h with h | rfl
    · exact hs' h
    · exact Or.inr ⟨hp, hdue.2.1, htime⟩

theorem providersTried_subset : s.result.providersTried ⊆
    (waterfallLoop U service course companyId ps s).result.providersTried := by
  apply waterfallLoop_induction (P := fun s' =>
    s.result.providersTried ⊆ s'.result.providersTried)
  · exact List.Subset.refl _
  · intro p _ s' hs' _ _
    obtain ⟨-, -, -, htried⟩ := call_spec U service course companyId p s'
    rw [htried]
    exact fun q hq => List.mem_append_left _ (hs' hq)

/-- One provider more at the end of the list. -/
theorem flags_concat {before : List Provider}
    (htime : ∀ q ∈ before ++ [p], course.elapsed q < enrichmentTimeout) :
    let s' := waterfallLoop U service course companyId before s
    let next := waterfallLoop U service course companyId (before ++ [p]) s
    (next.raised = true ↔ s'.raised = true ∨ (Due service p s' ∧
      ∃ contacts, course.attempt p s'.store = .found contacts ∧
        ¬s'.store.Taken U companyId contacts)) ∧
    (next.result.verifiedFound = true ↔ s'.result.verifiedFound = true ∨ (Due service p s' ∧
      ∃ contacts, course.attempt p s'.store = .found contacts ∧
        s'.store.Taken U companyId contacts ∧
        ∃ c ∈ contacts, isVerifiedTarget U service c = true)) := by
  intro s' next
  obtain ⟨hbefore, hp⟩ := List.forall_mem_append.mp htime
  have hp : course.elapsed p < enrichmentTimeout := hp p List.mem_cons_self
  have hnext : next = waterfallLoop U service course companyId [p] s' :=
    waterfallLoop_append [p] hbefore
  rw [hnext]
  by_cases hdue : Due service p s'
  · obtain ⟨hraised, hverified⟩ := call_flags U service course companyId p s'
    rw [waterfallLoop_of_due hdue hp]
    exact ⟨hraised.trans (or_congr_right (and_iff_right hdue).symm),
      hverified.trans (or_congr_right (and_iff_right hdue).symm)⟩
  · rw [waterfallLoop_of_not_due hdue]
    exact ⟨⟨Or.inl, fun h => h.resolve_right fun hcall => hdue hcall.1⟩,
      ⟨Or.inl, fun h => h.resolve_right fun hcall => hdue hcall.1⟩⟩

/-- The turn in which a loop has raised. -/
theorem exists_refused (h : s.raised = false)
    (hraised : (waterfallLoop U service course companyId ps s).raised = true) :
    ∃ before p after, ps = before ++ p :: after ∧
      Due service p (waterfallLoop U service course companyId before s) ∧
      course.elapsed p < enrichmentTimeout ∧
      ∃ contacts,
        course.attempt p (waterfallLoop U service course companyId before s).store =
          .found contacts ∧
        ¬(waterfallLoop U service course companyId before s).store.Taken U companyId contacts := by
  induction ps generalizing s with
  | nil =>
    rw [waterfallLoop, h] at hraised
    cases hraised
  | cons p ps ih =>
    by_cases hdue : Due service p s
    · by_cases htime : course.elapsed p < enrichmentTimeout
      · rw [waterfallLoop_of_due hdue htime] at hraised
        cases hcall : (call U service course companyId p s).raised with
        | true =>
          -- it was this turn
          obtain ⟨hflag, _⟩ := call_flags U service course companyId p s
          have hor := hflag.mp hcall
          rw [h] at hor
          exact ⟨[], p, ps, rfl, hdue, htime, hor.resolve_left Bool.false_ne_true⟩
        | false =>
          obtain ⟨before, q, after, rfl, hq⟩ := ih hcall hraised
          refine ⟨p :: before, q, after, rfl, ?_⟩
          rw [waterfallLoop_of_due hdue htime]
          exact hq
      · rw [waterfallLoop_of_timeout hdue htime, h] at hraised
        cases hraised
    · rw [waterfallLoop_of_not_due hdue] at hraised
      obtain ⟨before, q, after, rfl, hq⟩ := ih h hraised
      refine ⟨p :: before, q, after, rfl, ?_⟩
      rw [waterfallLoop_of_not_due hdue]
      exact hq

end

/-! ## Which providers are called -/

namespace Provider

theorem all_eq (p : Provider) : ∃ after, all = p.before ++ p :: after ∧ p ∉ p.before ∧
    p ∉ after := by
  cases p with
  | hunter => exact ⟨[gemini, scrapin, scrapedContent], by decide⟩
  | gemini => exact ⟨[scrapin, scrapedContent], by decide⟩
  | scrapin => exact ⟨[scrapedContent], by decide⟩
  | scrapedContent => exact ⟨[], by decide⟩

theorem before_eq {p : Provider} {ps after : List Provider} (h : all = ps ++ p :: after) :
    p.before = ps := by
  have hnodup : (ps ++ p :: after).Nodup := h ▸ (by decide : all.Nodup)
  have hnot : ∀ q ∈ ps, q ≠ p := fun q hq heq =>
    (List.nodup_append.mp hnodup).2.2 q hq p List.mem_cons_self heq
  unfold before
  rw [h, List.takeWhile_append_of_pos fun q hq => decide_eq_true (hnot q hq),
    List.takeWhile_cons_of_neg (by simp), List.append_nil]

end Provider

section

variable (U : Unicode) (service : EnrichmentService) (course : Course) (companyId : ℕ)
  (store : ContactStore)

/-- The loop when it comes to a provider. -/
def stateAt (p : Provider) : WaterfallState :=
  waterfallLoop U service course companyId p.before (.start companyId store)

/-- The loop when it has been at a provider. -/
def stateAfter (p : Provider) : WaterfallState :=
  waterfallLoop U service course companyId (p.before ++ [p]) (.start companyId store)

/-- A provider is called. -/
def Called (p : Provider) : Prop :=
  p ∈ (runContactWaterfall U service course companyId store).result.providersTried

/-- A provider is called, and it returns a verified contact with a target title. -/
def ReturnsVerified (p : Provider) : Prop :=
  Called U service course companyId store p ∧
    ∃ contacts, course.attempt p (stateAt U service course companyId store p).store =
      .found contacts ∧ ∃ c ∈ contacts, isVerifiedTarget U service c = true

end

section

variable {U : Unicode} {service : EnrichmentService} {course : Course} {companyId : ℕ}
  {store : ContactStore} {p : Provider}

theorem elapsed_before (h : course.elapsed p < enrichmentTimeout) :
    ∀ q ∈ p.before, course.elapsed q < enrichmentTimeout :=
  fun q hq => lt_of_le_of_lt (course.elapsed_mono p q hq) h

theorem runContactWaterfall_eq (after : List Provider)
    (hall : Provider.all = p.before ++ p :: after)
    (htime : course.elapsed p < enrichmentTimeout) :
    runContactWaterfall U service course companyId store =
      waterfallLoop U service course companyId (p :: after)
        (stateAt U service course companyId store p) := by
  unfold runContactWaterfall stateAt
  rw [hall, waterfallLoop_append _ (elapsed_before htime)]

theorem called_iff_due : Called U service course companyId store p ↔
    Due service p (stateAt U service course companyId store p) ∧
      course.elapsed p < enrichmentTimeout := by
  obtain ⟨after, hall, hbefore, hafter⟩ := p.all_eq
  constructor
  · intro h
    obtain ⟨-, -, htime⟩ := (mem_providersTried h).resolve_left List.not_mem_nil
    refine ⟨?_, htime⟩
    by_contra hdue
    -- a provider that is not due is passed over, and it has no other turn
    unfold Called at h
    rw [runContactWaterfall_eq after hall htime, waterfallLoop_of_not_due hdue] at h
    rcases mem_providersTried h with h | ⟨h, -⟩
    · obtain ⟨h, -⟩ := (mem_providersTried h).resolve_left List.not_mem_nil
      exact hbefore h
    · exact hafter h
  · rintro ⟨hdue, htime⟩
    unfold Called
    rw [runContactWaterfall_eq after hall htime, waterfallLoop_of_due hdue htime]
    apply providersTried_subset
    obtain ⟨-, -, -, htried⟩ := call_spec U service course companyId p
      (stateAt U service course companyId store p)
    rw [htried]
    exact List.mem_append_right _ (List.mem_singleton.mpr rfl)

/-- While there is time, a loop that ends without an exception stands in none. -/
theorem raised_stateAt (h : (runContactWaterfall U service course companyId store).raised = false)
    (htime : course.elapsed p < enrichmentTimeout) :
    (stateAt U service course companyId store p).raised = false := by
  obtain ⟨after, hall, -⟩ := p.all_eq
  rw [runContactWaterfall_eq after hall htime] at h
  by_contra hraised
  rw [waterfallLoop_of_raised (by simpa using hraised)] at h
  exact hraised h

/-- What a provider that is called finds in such a run, the database takes. -/
theorem taken_stateAt (h : (runContactWaterfall U service course companyId store).raised = false)
    (hcalled : Called U service course companyId store p) {contacts : List FoundContact}
    (hfound : course.attempt p (stateAt U service course companyId store p).store =
      .found contacts) :
    (stateAt U service course companyId store p).store.Taken U companyId contacts := by
  obtain ⟨hdue, htime⟩ := called_iff_due.mp hcalled
  obtain ⟨after, hall, -⟩ := p.all_eq
  rw [runContactWaterfall_eq after hall htime, waterfallLoop_of_due hdue htime] at h
  by_contra hrefused
  have hraised : (call U service course companyId p
      (stateAt U service course companyId store p)).raised = true :=
    (call_flags U service course companyId p _).1.mpr (Or.inr ⟨contacts, hfound, hrefused⟩)
  rw [waterfallLoop_of_raised hraised, hraised] at h
  cases h

/-- From the turn of a provider to the next one. -/
theorem verifiedFound_next {q : Provider}
    (h : (runContactWaterfall U service course companyId store).raised = false)
    (hnext : p.before = q.before ++ [q]) (htime : course.elapsed p < enrichmentTimeout) :
    (stateAt U service course companyId store p).result.verifiedFound = true ↔
      (stateAt U service course companyId store q).result.verifiedFound = true ∨
        ReturnsVerified U service course companyId store q := by
  have hbefore := elapsed_before htime
  rw [hnext] at hbefore
  have hq : course.elapsed q < enrichmentTimeout :=
    hbefore q (List.mem_append_right _ (List.mem_singleton.mpr rfl))
  have hstate : stateAt U service course companyId store p = waterfallLoop U service course
      companyId (q.before ++ [q]) (.start companyId store) := by
    unfold stateAt
    rw [hnext]
  rw [hstate]
  refine (flags_concat hbefore).2.trans (or_congr_right ?_)
  unfold ReturnsVerified
  constructor
  · rintro ⟨hdue, contacts, hfound, _, hany⟩
    exact ⟨called_iff_due.mpr ⟨hdue, hq⟩, contacts, hfound, hany⟩
  · rintro ⟨hcalled, contacts, hfound, hany⟩
    exact ⟨(called_iff_due.mp hcalled).1, contacts, hfound, taken_stateAt h hcalled hfound, hany⟩

/-- The flag of the loop stands for what has been returned. -/
theorem verifiedFound_stateAt
    (h : (runContactWaterfall U service course companyId store).raised = false)
    (htime : course.elapsed p < enrichmentTimeout) :
    (stateAt U service course companyId store p).result.verifiedFound = true ↔
      ∃ q ∈ p.before, ReturnsVerified U service course companyId store q := by
  have htime' : ∀ q ∈ p.before, course.elapsed q < enrichmentTimeout := elapsed_before htime
  have hhunter : (stateAt U service course companyId store .hunter).result.verifiedFound = true ↔
      False := iff_of_false Bool.false_ne_true id
  cases p with
  | hunter =>
    rw [hhunter]
    simp [Provider.before, Provider.all]
  | gemini =>
    rw [verifiedFound_next (q := .hunter) h rfl htime, hhunter]
    simp [Provider.before, Provider.all]
  | scrapin =>
    rw [verifiedFound_next (q := .gemini) h rfl htime,
      verifiedFound_next (q := .hunter) h rfl (htime' .gemini (by decide)), hhunter]
    simp [Provider.before, Provider.all]
  | scrapedContent =>
    rw [verifiedFound_next (q := .scrapin) h rfl htime,
      verifiedFound_next (q := .gemini) h rfl (htime' .scrapin (by decide)),
      verifiedFound_next (q := .hunter) h rfl (htime' .gemini (by decide)), hhunter]
    simp [Provider.before, Provider.all, or_assoc]

/-- A provider is called if it has a client, if time remains at its turn, and if nothing verified
has been returned before or it is the supplement. -/
theorem called_iff (h : (runContactWaterfall U service course companyId store).raised = false) :
    Called U service course companyId store p ↔
      service.configured p = true ∧ course.elapsed p < enrichmentTimeout ∧
        (p ≠ .gemini →
          ∀ q ∈ p.before, ¬ReturnsVerified U service course companyId store q) := by
  have hsupplement : p.alwaysRun = false ↔ p ≠ .gemini := by
    cases p <;> decide
  rw [called_iff_due, ← hsupplement]
  constructor
  · rintro ⟨⟨-, hconfigured, hverified⟩, htime⟩
    refine ⟨hconfigured, htime, fun hrun q hq hreturns => ?_⟩
    have hfound := (verifiedFound_stateAt h htime).mpr ⟨q, hq, hreturns⟩
    rw [hverified hrun] at hfound
    cases hfound
  · rintro ⟨hconfigured, htime, hnone⟩
    refine ⟨⟨raised_stateAt h htime, hconfigured, fun hrun => ?_⟩, htime⟩
    rw [Bool.eq_false_iff]
    intro hfound
    obtain ⟨q, hq, hreturns⟩ := (verifiedFound_stateAt h htime).mp hfound
    exact hnone hrun q hq hreturns

/-- The loop after a turn in which the provider is called. -/
theorem stateAfter_eq (hcalled : Called U service course companyId store p) :
    stateAfter U service course companyId store p =
      call U service course companyId p (stateAt U service course companyId store p) := by
  obtain ⟨hdue, htime⟩ := called_iff_due.mp hcalled
  unfold stateAfter
  rw [waterfallLoop_append _ (elapsed_before htime)]
  exact waterfallLoop_of_due hdue htime

/-- A call that fails stores nothing. -/
theorem store_call_of_failed {s : WaterfallState} (h : (course.attempt p s.store).failed = true) :
    (call U service course companyId p s).store = s.store := by
  unfold call settle
  dsimp only
  cases hattempt : course.attempt p s.store with
  | found contacts =>
    rw [hattempt] at h
    cases h
  | timeout => rfl
  | apiError message => rfl
  | unexpectedError message => rfl

/-- A call that finds contacts stores the new ones, if the database takes them. -/
theorem contacts_call_of_taken {s : WaterfallState} {contacts : List FoundContact}
    (hfound : course.attempt p s.store = .found contacts)
    (htaken : s.store.Taken U companyId contacts) :
    (call U service course companyId p s).store.contacts = s.store.contacts ++
      ContactStore.numbered companyId s.store.nextId
        (s.store.newContacts U companyId contacts) := by
  unfold call
  rw [hfound]
  cases contacts with
  | nil => exact (List.append_nil _).symm
  | cons c cs =>
    rw [settle_of_taken (s := s.tried p) (List.cons_ne_nil c cs) htaken]
    exact ContactStore.contacts_foldl_add

/-- The rows that are there after a turn are there in the end. -/
theorem contacts_stateAfter_isPrefix (hcalled : Called U service course companyId store p) :
    (stateAfter U service course companyId store p).store.contacts <+:
      (runContactWaterfall U service course companyId store).store.contacts := by
  obtain ⟨after, hall, -⟩ := p.all_eq
  obtain ⟨hdue, htime⟩ := called_iff_due.mp hcalled
  rw [runContactWaterfall_eq after hall htime, waterfallLoop_of_due hdue htime,
    ← stateAfter_eq hcalled]
  obtain ⟨added, hgrows, -⟩ := waterfallLoop_grows U service course companyId after
    (stateAfter U service course companyId store p)
  exact hgrows.contacts_isPrefix

/-- A run raises exactly if the database refuses what a provider finds at its turn. -/
theorem raised_eq_false_iff :
    (runContactWaterfall U service course companyId store).raised = false ↔
      ∀ p, Due service p (stateAt U service course companyId store p) →
        course.elapsed p < enrichmentTimeout → ∀ contacts,
          course.attempt p (stateAt U service course companyId store p).store = .found contacts →
            (stateAt U service course companyId store p).store.Taken U companyId contacts := by
  constructor
  · intro h p hdue htime contacts hfound
    exact taken_stateAt h (called_iff_due.mpr ⟨hdue, htime⟩) hfound
  · intro h
    rw [Bool.eq_false_iff]
    intro hraised
    obtain ⟨before, p, after, hall, hdue, htime, contacts, hfound, hrefused⟩ :=
      exists_refused rfl hraised
    obtain rfl : p.before = before := Provider.before_eq hall
    exact hrefused (h p hdue htime contacts hfound)

end

/-- What the waterfall is to do. A provider other than the supplement is called exactly if it has
a client, time remains at its turn and no provider before it has returned a verified contact with
a target title; the supplement needs only the first two. So a failure keeps no other provider from
its turn; what is there by then stays, what a provider finds and is new is stored, and the count
is that of the rows added. -/
structure Controlled (U : Unicode) (service : EnrichmentService) (course : Course)
    (companyId : ℕ) (store : ContactStore) : Prop where
  returns : (runContactWaterfall U service course companyId store).raised = false
  called : ∀ p, Called U service course companyId store p ↔
    service.configured p = true ∧ course.elapsed p < enrichmentTimeout ∧
      (p ≠ .gemini → ∀ q ∈ p.before, ¬ReturnsVerified U service course companyId store q)
  failed : ∀ p, Called U service course companyId store p →
    (course.attempt p (stateAt U service course companyId store p).store).failed = true →
    (stateAfter U service course companyId store p).store =
      (stateAt U service course companyId store p).store
  stored : ∀ p, Called U service course companyId store p → ∀ contacts,
    course.attempt p (stateAt U service course companyId store p).store = .found contacts →
    (stateAfter U service course companyId store p).store.contacts =
      (stateAt U service course companyId store p).store.contacts ++
        ContactStore.numbered companyId (stateAt U service course companyId store p).store.nextId
          ((stateAt U service course companyId store p).store.newContacts U companyId contacts)
  kept : ∀ p, Called U service course companyId store p →
    (stateAfter U service course companyId store p).store.contacts <+:
      (runContactWaterfall U service course companyId store).store.contacts
  counted : ∃ new,
    (runContactWaterfall U service course companyId store).store.contacts =
      store.contacts ++ new ∧
    (runContactWaterfall U service course companyId store).result.contactsAdded = new.length

/-- The waterfall does so exactly if the columns take each new contact that a provider finds when
it is called at its turn. -/
theorem controlled_iff (U : Unicode) (service : EnrichmentService) (course : Course)
    (companyId : ℕ) (store : ContactStore) :
    Controlled U service course companyId store ↔
      ∀ p, Due service p (stateAt U service course companyId store p) →
        course.elapsed p < enrichmentTimeout → ∀ contacts,
          course.attempt p (stateAt U service course companyId store p).store = .found contacts →
            ∀ c ∈ (stateAt U service course companyId store p).store.newContacts U companyId
              contacts, c.fits = true := by
  refine Iff.trans ⟨Controlled.returns, fun h => ?_⟩ raised_eq_false_iff
  constructor
  · exact h
  · exact fun p => called_iff h
  · intro p hcalled hfailed
    rw [stateAfter_eq hcalled]
    exact store_call_of_failed hfailed
  · intro p hcalled contacts hfound
    rw [stateAfter_eq hcalled]
    exact contacts_call_of_taken hfound (taken_stateAt h hcalled hfound)
  · exact fun p => contacts_stateAfter_isPrefix
  · obtain ⟨added, hgrows, hcount⟩ := waterfallLoop_grows U service course companyId Provider.all
      (.start companyId store)
    obtain ⟨new, hnew, hlength, -⟩ := hgrows.contacts
    refine ⟨new, hnew, ?_⟩
    rw [hlength]
    exact hcount.trans (Nat.zero_add added)

/-- Hunter finds a contact whose phone number has more than fifty characters. -/
def longPhone : Course := .prompt fun p _ =>
  if p = .hunter then
    .found [{ name := "Jan".toList, email := some "jan@acme.nl".toList,
              phone := some (List.replicate 51 '0'), source := "hunter",
              confidenceScore := 9 / 10 }]
  else .found []

/-- The supplement is not called, although it has a client and time remains. -/
theorem longPhone_not_controlled :
    ¬Controlled .ascii ⟨["CTO".toList], fun _ => true⟩ longPhone 1 ⟨[], 0, by decide⟩ := by
  intro h
  have hcalled := (h.called .gemini).mpr ⟨rfl, by decide, fun hne => absurd rfl hne⟩
  revert hcalled
  unfold Called
  decide +kernel

end Enrichment
end LeadPulse
