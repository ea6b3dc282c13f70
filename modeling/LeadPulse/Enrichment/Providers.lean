import LeadPulse.Enrichment.Waterfall

/-!
# The providers of the contact waterfall

`_try_hunter`, `_try_gemini`, `_try_scrapin` and `_try_scraped_content` (`services/enrichment.py`),
with what the clients answer as a parameter. The supplement goes through untrusted output with two
sets of keys at hand, names and emails.

`tryGemini_supplements`: whom the supplement adds is new by name and by email, wherever there is a
name or an email. A name of white space counts as none: `blankNames_repeat`.
-/

namespace LeadPulse
namespace Enrichment

open PyStr
open Scoring (EmailStatus)

/-! ## What the clients answer -/

inductive VerificationStatus where
  | deliverable
  | risky
  | undeliverable
  | unknown
deriving DecidableEq, Repr

structure HunterEmail where
  value : List Char
  firstName : Option (List Char) := none
  lastName : Option (List Char) := none
  position : Option (List Char) := none
  confidence : ℕ
  linkedin : Option (List Char) := none
  phoneNumber : Option (List Char) := none
deriving DecidableEq, Repr

structure ScrapInContact where
  firstName : Option (List Char) := none
  lastName : Option (List Char) := none
  fullName : Option (List Char) := none
  title : Option (List Char) := none
  email : Option (List Char) := none
  phone : Option (List Char) := none
  linkedinUrl : Option (List Char) := none
  confidence : ℚ
deriving DecidableEq, Repr

structure ExtractedContact where
  name : List Char
  title : Option (List Char) := none
  email : Option (List Char) := none
  linkedinUrl : Option (List Char) := none
  isDecisionMaker : Bool := false
deriving DecidableEq, Repr

/-- An exception of a client: an `APIError` or another one. -/
inductive ProviderError where
  | apiError (message : String)
  | other (message : String)
deriving DecidableEq, Repr

/-- What the clients answer for a company, and the pages of it that have been scraped. -/
structure Answers where
  domainSearch : Except ProviderError (List HunterEmail)
  verifyEmail : List Char → Except ProviderError VerificationStatus
  findContactsWithContext : Except ProviderError (List ExtractedContact)
  findContacts : Except ProviderError (List ScrapInContact)
  cachedContent : List Char
  extractContacts : Except ProviderError (List ExtractedContact)

/-- `" ".join(p for p in parts if p)`. -/
def joinNames (parts : List (Option (List Char))) : List Char :=
  [' '].intercalate ((parts.map (·.getD [])).filter (· ≠ []))

/-- `full_name`. -/
def HunterEmail.fullName (e : HunterEmail) : List Char := joinNames [e.firstName, e.lastName]

/-- `display_name`. -/
def ScrapInContact.displayName (c : ScrapInContact) : List Char :=
  if c.fullName.getD [] ≠ [] then c.fullName.getD [] else joinNames [c.firstName, c.lastName]

/-! ## The four providers -/

section

variable (U : Unicode) (service : EnrichmentService) (answers : Answers)

/-- `if title and self._title_matches(title)`. -/
def hasTargetTitle (title : Option (List Char)) : Bool :=
  title.getD [] ≠ [] && titleMatches U service (title.getD [])

/-- `if title and not self._title_matches(title)`. -/
def hasOtherTitle (title : Option (List Char)) : Bool :=
  title.getD [] ≠ [] && !titleMatches U service (title.getD [])

/-- What a verification says of an email. -/
def statusOf : Except ProviderError VerificationStatus → EmailStatus
  | .ok .deliverable => .verified
  | .ok .risky => .catchAll
  | .ok .undeliverable | .ok .unknown | .error _ => .unverified

/-- `_verify_email`. -/
def verifyEmail (email : List Char) : EmailStatus :=
  if service.configured .hunter then statusOf (answers.verifyEmail email) else .unverified

/-- The status of a result of Hunter: only middling confidence is verified. -/
def hunterStatus (e : HunterEmail) : EmailStatus :=
  if 90 ≤ e.confidence then .verified
  else if 70 ≤ e.confidence then statusOf (answers.verifyEmail e.value)
  else .unverified

/-- `_try_hunter`. -/
def tryHunter : Except ProviderError (List FoundContact) :=
  answers.domainSearch.map fun results =>
    (results.filter fun e => e.value ≠ [] && !hasOtherTitle U service e.position).map fun e =>
      { name := if e.fullName ≠ [] then e.fullName else upTo '@' e.value
        title := e.position
        email := some e.value
        emailStatus := some (hunterStatus answers e)
        phone := e.phoneNumber
        linkedinUrl := e.linkedin
        source := "hunter"
        confidenceScore := e.confidence / 100 }

/-- `name.lower().strip()`. -/
def nameKey (name : List Char) : List Char := strip (U.lower name)

/-- `(email or "").lower()`. -/
def emailText (email : Option (List Char)) : List Char := U.lower (email.getD [])

/-- `existing_emails` of `_try_gemini`. -/
def knownEmails (existing : List Contact) : List (List Char) :=
  (existing.filter fun c => c.email.getD [] ≠ []).map fun c => emailText U c.email

/-- `existing_names`. -/
def knownNames (existing : List Contact) : List (List Char) :=
  (existing.filter fun c => c.name ≠ []).map fun c => nameKey U c.name

/-- Looks like a decision maker. -/
def isWanted (ec : ExtractedContact) : Bool :=
  ec.isDecisionMaker || hasTargetTitle U service ec.title

/-- The contact that the supplement makes. -/
def geminiContact (ec : ExtractedContact) : FoundContact where
  name := ec.name
  title := ec.title
  email := ec.email
  emailStatus :=
    if ec.email.getD [] ≠ [] then some (verifyEmail service answers (ec.email.getD [])) else none
  linkedinUrl := ec.linkedinUrl
  source := "gemini"
  confidenceScore := if ec.isDecisionMaker then 6 / 10 else 4 / 10

/-- The contact is dropped, with the keys that are known at its turn. -/
def isDropped (emails names : List (List Char)) (ec : ExtractedContact) : Bool :=
  ec.name = [] ||
    (emailText U ec.email ≠ [] && emails.contains (emailText U ec.email)) ||
    (nameKey U ec.name ≠ [] && names.contains (nameKey U ec.name)) ||
    !isWanted U service ec

/-- A key joins its set unless it is empty. -/
def addKey (key : List Char) (keys : List (List Char)) : List (List Char) :=
  if key ≠ [] then key :: keys else keys

/-- The loop of `_try_gemini`, with the two sets: the contacts that are kept. -/
def keptByGemini : List (List Char) → List (List Char) → List ExtractedContact →
    List ExtractedContact
  | _, _, [] => []
  | emails, names, ec :: ecs =>
    if isDropped U service emails names ec then keptByGemini emails names ecs
    else ec :: keptByGemini (addKey (emailText U ec.email) emails)
      (addKey (nameKey U ec.name) names) ecs

/-- `_try_gemini`, for the stored contacts of the company. -/
def tryGemini (existing : List Contact) : List FoundContact :=
  match answers.findContactsWithContext with
  | .error _ => []
  | .ok extracted =>
    (keptByGemini U service (knownEmails U existing) (knownNames U existing) extracted).map
      (geminiContact service answers)

/-- `_filter_by_title`, if there are keywords. -/
def filterByTitle (contacts : List ScrapInContact) : List ScrapInContact :=
  if service.targetTitles ≠ [] then contacts.filter fun c => hasTargetTitle U service c.title
  else contacts

/-- `_try_scrapin`. -/
def tryScrapin : Except ProviderError (List FoundContact) :=
  answers.findContacts.map fun results =>
    ((filterByTitle U service results).filter fun sc => sc.displayName ≠ []).map fun sc =>
      { name := sc.displayName
        title := sc.title
        email := sc.email
        emailStatus := if sc.email.getD [] ≠ [] then some .unverified else none
        phone := sc.phone
        linkedinUrl := sc.linkedinUrl
        source := "scrapin"
        confidenceScore := sc.confidence }

/-- `_try_scraped_content`. -/
def tryScrapedContent : List FoundContact :=
  if strip answers.cachedContent = [] then []
  else
    match answers.extractContacts with
    | .error _ => []
    | .ok extracted =>
      (extracted.filter fun ec => ec.name ≠ [] && !hasOtherTitle U service ec.title).map fun ec =>
        { name := ec.name
          title := ec.title
          email := ec.email
          emailStatus :=
            if ec.email.getD [] ≠ [] then some (verifyEmail service answers (ec.email.getD []))
            else none
          linkedinUrl := ec.linkedinUrl
          source := "scraped_content"
          confidenceScore := 5 / 10 }

/-- An exception of a provider, as the waterfall catches it. -/
def Attempt.ofExcept : Except ProviderError (List FoundContact) → Attempt
  | .ok contacts => .found contacts
  | .error (.apiError message) => .apiError message
  | .error (.other message) => .unexpectedError message

/-- `_try_provider`. -/
def tryProvider (companyId : ℕ) : Provider → ContactStore → Attempt
  | .hunter, _ => .ofExcept (tryHunter U service answers)
  | .gemini, store => .found (tryGemini U service answers (store.ofCompany companyId))
  | .scrapin, _ => .ofExcept (tryScrapin U service answers)
  | .scrapedContent, _ => .found (tryScrapedContent U service answers)

end

/-! ## The supplement -/

section

variable {U : Unicode} {service : EnrichmentService} {answers : Answers}
  {emails names : List (List Char)} {ec : ExtractedContact} {ecs : List ExtractedContact}

/-- Two contacts of different keys, where there are keys. -/
structure Distinct (U : Unicode) (name name' : List Char) (email email' : Option (List Char)) :
    Prop where
  name : nameKey U name ≠ [] → nameKey U name ≠ nameKey U name'
  email : emailText U email ≠ [] → emailText U email ≠ emailText U email'

theorem isDropped_eq_false : isDropped U service emails names ec = false ↔
    ec.name ≠ [] ∧ (emailText U ec.email ≠ [] → emailText U ec.email ∉ emails) ∧
      (nameKey U ec.name ≠ [] → nameKey U ec.name ∉ names) ∧ isWanted U service ec = true := by
  unfold isDropped
  simp only [Bool.or_eq_false_iff, Bool.and_eq_false_iff, decide_eq_false_iff_not, not_not,
    Bool.not_eq_false', and_assoc, ne_eq, or_iff_not_imp_left, List.contains_eq_mem]

theorem mem_addKey {k : List Char} {key : List Char} {keys : List (List Char)} :
    k ∈ addKey key keys ↔ (key ≠ [] ∧ k = key) ∨ k ∈ keys := by
  unfold addKey
  by_cases h : key = []
  · rw [if_neg (by simp [h])]
    simp [h]
  · rw [if_pos h, List.mem_cons]
    simp [h]

/-- What is kept has keys that were not known before the loop. -/
theorem mem_keptByGemini (h : ec ∈ keptByGemini U service emails names ecs) :
    ec ∈ ecs ∧ isDropped U service emails names ec = false := by
  induction ecs generalizing emails names with
  | nil => cases h
  | cons d ecs ih =>
    unfold keptByGemini at h
    split at h
    · obtain ⟨hmem, hkept⟩ := ih h
      exact ⟨List.mem_cons_of_mem d hmem, hkept⟩
    · rename_i hd
      rcases List.mem_cons.mp h with rfl | h
      · exact ⟨List.mem_cons_self, by simpa using hd⟩
      · obtain ⟨hmem, hkept⟩ := ih h
        obtain ⟨hname, hemails, hnames, hwanted⟩ := isDropped_eq_false.mp hkept
        refine ⟨List.mem_cons_of_mem d hmem, isDropped_eq_false.mpr ⟨hname, ?_, ?_, hwanted⟩⟩
        · exact fun hne hold => hemails hne (mem_addKey.mpr (Or.inr hold))
        · exact fun hne hold => hnames hne (mem_addKey.mpr (Or.inr hold))

/-- The keys of what is kept are taken for the rest of the loop. -/
theorem pairwise_keptByGemini : (keptByGemini U service emails names ecs).Pairwise fun c d =>
    Distinct U c.name d.name c.email d.email := by
  induction ecs generalizing emails names with
  | nil => exact List.Pairwise.nil
  | cons c ecs ih =>
    unfold keptByGemini
    split
    · exact ih
    · refine List.Pairwise.cons (fun d hd => ?_) ih
      obtain ⟨-, hkept⟩ := mem_keptByGemini hd
      obtain ⟨-, hemails, hnames, -⟩ := isDropped_eq_false.mp hkept
      constructor
      · intro hne heq
        exact hnames (heq ▸ hne) (mem_addKey.mpr (Or.inl ⟨hne, heq.symm⟩))
      · intro hne heq
        exact hemails (heq ▸ hne) (mem_addKey.mpr (Or.inl ⟨hne, heq.symm⟩))

theorem emailText_nil {email : Option (List Char)} (h : email.getD [] = []) :
    emailText U email = [] := by
  unfold emailText
  rw [h]
  exact U.lower_ascii [] (by simp)

theorem nameKey_nil : nameKey U [] = [] := by
  unfold nameKey
  rw [U.lower_ascii [] (by simp)]
  rfl

theorem mem_knownEmails {existing : List Contact} {r : Contact} (hr : r ∈ existing)
    (h : emailText U r.email ≠ []) : emailText U r.email ∈ knownEmails U existing := by
  have hne : r.email.getD [] ≠ [] := fun hnil => h (emailText_nil hnil)
  exact List.mem_map.mpr ⟨r, List.mem_filter.mpr ⟨hr, decide_eq_true hne⟩, rfl⟩

theorem mem_knownNames {existing : List Contact} {r : Contact} (hr : r ∈ existing)
    (h : nameKey U r.name ≠ []) : nameKey U r.name ∈ knownNames U existing := by
  have hne : r.name ≠ [] := by
    intro hnil
    rw [hnil, nameKey_nil] at h
    exact h rfl
  exact List.mem_map.mpr ⟨r, List.mem_filter.mpr ⟨hr, decide_eq_true hne⟩, rfl⟩

theorem mem_tryGemini {existing : List Contact} {c : FoundContact}
    (h : c ∈ tryGemini U service answers existing) :
    ∃ extracted, answers.findContactsWithContext = .ok extracted ∧
      ∃ ec ∈ keptByGemini U service (knownEmails U existing) (knownNames U existing) extracted,
        c = geminiContact service answers ec := by
  unfold tryGemini at h
  split at h
  · cases h
  · rename_i extracted hextracted
    obtain ⟨ec, hec, rfl⟩ := List.mem_map.mp h
    exact ⟨extracted, hextracted, ec, hec, rfl⟩

end

/-- The contacts that the supplement returns differ from each other and from the stored contacts
of the company, by name and by email where they have one, and each was flagged as a decision maker
or has a target title. -/
theorem tryGemini_supplements (U : Unicode) (service : EnrichmentService) (answers : Answers)
    (store : ContactStore) (companyId : ℕ) :
    let added := tryGemini U service answers (store.ofCompany companyId)
    added.Pairwise (fun c d => Distinct U c.name d.name c.email d.email) ∧
      ∀ c ∈ added,
        (∀ r ∈ store.contacts, r.companyId = companyId →
          Distinct U c.name r.name c.email r.email) ∧
        ∃ extracted, answers.findContactsWithContext = .ok extracted ∧ ∃ ec ∈ extracted,
          c = geminiContact service answers ec ∧
            (ec.isDecisionMaker = true ∨ hasTargetTitle U service ec.title = true) := by
  intro added
  constructor
  · show (tryGemini U service answers (store.ofCompany companyId)).Pairwise _
    unfold tryGemini
    split
    · exact List.Pairwise.nil
    · exact List.pairwise_map.mpr pairwise_keptByGemini
  · intro c hc
    obtain ⟨extracted, hextracted, ec, hec, rfl⟩ := mem_tryGemini hc
    obtain ⟨hmem, hkept⟩ := mem_keptByGemini hec
    obtain ⟨-, hemails, hnames, hwanted⟩ := isDropped_eq_false.mp hkept
    refine ⟨fun r hr howner => ?_, extracted, hextracted, ec, hmem, rfl,
      by simpa [isWanted] using hwanted⟩
    have hmem : r ∈ store.ofCompany companyId :=
      List.mem_filter.mpr ⟨hr, decide_eq_true howner⟩
    -- a key that a stored contact has is known before the first of the answer is read
    refine ⟨fun hne heq => ?_, fun hne heq => ?_⟩
    · have heq : nameKey U ec.name = nameKey U r.name := heq
      refine hnames hne ?_
      rw [heq]
      exact mem_knownNames hmem (heq ▸ hne)
    · have heq : emailText U ec.email = emailText U r.email := heq
      refine hemails hne ?_
      rw [heq]
      exact mem_knownEmails hmem (heq ▸ hne)

/-- A service with all providers. -/
def fullService : EnrichmentService where
  targetTitles := ["CTO".toList]
  configured _ := true

/-- Clients that find nobody. -/
def noAnswers : Answers where
  domainSearch := .ok []
  verifyEmail _ := .ok .unknown
  findContactsWithContext := .ok []
  findContacts := .ok []
  cachedContent := []
  extractContacts := .ok []

/-- Two decision makers without a name or an email to tell them apart. -/
def blankNames : Answers :=
  { noAnswers with
    findContactsWithContext := .ok
      [{ name := " ".toList, isDecisionMaker := true },
       { name := "  ".toList, isDecisionMaker := true }] }

/-- Both are returned, though their trimmed names are the same. -/
theorem blankNames_repeat :
    ¬(tryGemini .ascii fullService blankNames []).Pairwise fun c d =>
      nameKey .ascii c.name ≠ nameKey .ascii d.name := by
  decide +kernel

end Enrichment
end LeadPulse
