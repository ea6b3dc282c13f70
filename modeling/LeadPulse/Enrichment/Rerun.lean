import LeadPulse.Enrichment.Providers

/-!
# The waterfall once more

A second run of the contact waterfall over the rows that a first one has left, with the same
answers of all clients. Hunter's contacts all have an email, by which `_store_contacts` knows them,
and the supplement knows contacts by their names as well. A contact of the other two providers that
has no email is stored again.

`rerun_adds_nothing_iff` says of which answers a second run adds nothing. The second run may also
call providers that the first one has not: a verified contact of the supplement ends the first run,
and is not returned again in the second. Where the database refuses what a provider finds, both
runs end there.
-/

namespace LeadPulse

/-- `str.lower` makes no text empty. -/
def Unicode.LowerNonempty (U : Unicode) : Prop := ∀ s, U.lower s = [] → s = []

theorem Unicode.ascii_lowerNonempty : Unicode.ascii.LowerNonempty :=
  fun _ h => List.map_eq_nil_iff.mp h

namespace Enrichment

open PyStr Unseen
open Scoring (EmailStatus)

/-! ## Storing contacts -/

namespace ContactStore

variable {U : Unicode} {store : ContactStore} {companyId : ℕ} {found : List FoundContact}
  {c : FoundContact} {r : Contact} {k : List Char}

/-- The table after `_store_contacts`: a commit that is refused leaves it as it is. -/
def put (U : Unicode) (companyId : ℕ) (store : ContactStore) (found : List FoundContact) :
    ContactStore := ((store.storeContacts U companyId found).map Prod.fst).getD store

/-- All contacts have emails, and the company has them all. -/
def AllKnown (U : Unicode) (companyId : ℕ) (store : ContactStore) (found : List FoundContact) :
    Prop :=
  ∀ c ∈ found, ∃ k, c.emailKey U = some k ∧ k ∈ store.existingEmails U companyId

theorem put_of_not_taken (h : ¬store.Taken U companyId found) :
    put U companyId store found = store := by
  unfold put
  rw [storeContacts_of_not_taken h]
  rfl

theorem put_of_taken (h : store.Taken U companyId found) :
    put U companyId store found =
      (store.newContacts U companyId found).foldl (add companyId) store := by
  unfold put
  rw [storeContacts_of_taken h]
  rfl

theorem newContacts_eq_nil_iff :
    store.newContacts U companyId found = [] ↔ AllKnown U companyId store found :=
  unseen_eq_nil_iff

theorem allKnown_nil : AllKnown U companyId store [] := fun _ hc => nomatch hc

theorem AllKnown.taken (h : AllKnown U companyId store found) : store.Taken U companyId found := by
  unfold Taken
  rw [newContacts_eq_nil_iff.mpr h]
  exact fun c hc => nomatch hc

theorem put_eq_self (h : AllKnown U companyId store found) :
    put U companyId store found = store := by
  rw [put_of_taken h.taken, newContacts_eq_nil_iff.mpr h]
  rfl

theorem contacts_put (h : store.Taken U companyId found) :
    (put U companyId store found).contacts = store.contacts ++
      numbered companyId store.nextId (store.newContacts U companyId found) := by
  rw [put_of_taken h]
  exact contacts_foldl_add

/-- Nothing is stored exactly if there is nothing new or the commit is refused. -/
theorem contacts_put_eq_iff : (put U companyId store found).contacts = store.contacts ↔
    AllKnown U companyId store found ∨ ¬store.Taken U companyId found := by
  by_cases htaken : store.Taken U companyId found
  · rw [contacts_put htaken, List.append_right_eq_self, or_iff_left (not_not.mpr htaken),
      ← newContacts_eq_nil_iff, ← List.length_eq_zero_iff, length_numbered,
      List.length_eq_zero_iff]
  · rw [put_of_not_taken htaken]
    exact iff_of_true rfl (Or.inr htaken)

theorem mem_put_contacts (h : store.Taken U companyId found) :
    r ∈ (put U companyId store found).contacts ↔ r ∈ store.contacts ∨
      r ∈ numbered companyId store.nextId (store.newContacts U companyId found) := by
  rw [contacts_put h, List.mem_append]

theorem mem_ofCompany : r ∈ store.ofCompany companyId ↔
    r ∈ store.contacts ∧ r.companyId = companyId := by
  unfold ofCompany
  rw [List.mem_filter, decide_eq_true_eq]

theorem mem_existingEmails : k ∈ store.existingEmails U companyId ↔
    ∃ r ∈ store.ofCompany companyId, Dedup.emailKey U r = some k :=
  List.mem_filterMap

/-- The emails of the company afterwards. -/
theorem mem_existingEmails_put (h : store.Taken U companyId found) :
    k ∈ (put U companyId store found).existingEmails U companyId ↔
      k ∈ store.existingEmails U companyId ∨ ∃ c ∈ found, c.emailKey U = some k := by
  have hkeys : (k ∈ store.existingEmails U companyId ∨
      ∃ c ∈ store.newContacts U companyId found, c.emailKey U = some k) ↔
      k ∈ store.existingEmails U companyId ∨ ∃ c ∈ found, c.emailKey U = some k := keys_unseen
  rw [← hkeys, mem_existingEmails, mem_existingEmails]
  constructor
  · rintro ⟨r, hr, hk⟩
    obtain ⟨hmem, howner⟩ := mem_ofCompany.mp hr
    rcases (mem_put_contacts h).mp hmem with hold | hnew
    · exact Or.inl ⟨r, mem_ofCompany.mpr ⟨hold, howner⟩, hk⟩
    · obtain ⟨-, -, c, hc, heq⟩ := mem_numbered hnew
      rw [heq] at hk
      exact Or.inr ⟨c, hc, hk⟩
  · rintro (⟨r, hr, hk⟩ | ⟨c, hc, hk⟩)
    · obtain ⟨hmem, howner⟩ := mem_ofCompany.mp hr
      exact ⟨r, mem_ofCompany.mpr ⟨(mem_put_contacts h).mpr (Or.inl hmem), howner⟩, hk⟩
    · obtain ⟨id, hid⟩ := exists_mem_numbered companyId store.nextId hc
      exact ⟨_, mem_ofCompany.mpr ⟨(mem_put_contacts h).mpr (Or.inr hid), rfl⟩, hk⟩

theorem isPrefix_put : store.contacts <+: (put U companyId store found).contacts := by
  by_cases htaken : store.Taken U companyId found
  · rw [contacts_put htaken]
    exact List.prefix_append _ _
  · rw [put_of_not_taken htaken]

/-- The rows of the company stay. -/
theorem ofCompany_subset_put :
    store.ofCompany companyId ⊆ (put U companyId store found).ofCompany companyId := by
  intro r hr
  obtain ⟨hmem, howner⟩ := mem_ofCompany.mp hr
  exact mem_ofCompany.mpr ⟨isPrefix_put.subset hmem, howner⟩

/-- What is stored again, when the emails are known, has been stored before. -/
theorem taken_again {store' : ContactStore} (h : store.Taken U companyId found)
    (hknown : ∀ c ∈ found, ∀ k, c.emailKey U = some k →
      k ∈ store'.existingEmails U companyId) : store'.Taken U companyId found :=
  fun c hc => h c (mem_unseen_of_again hknown hc)

/-- Two calls of `_store_contacts`, the second unless the first has raised. -/
def putBoth (U : Unicode) (companyId : ℕ) (store : ContactStore)
    (found found' : List FoundContact) : ContactStore :=
  if (store.storeContacts U companyId found).isSome then
    put U companyId (put U companyId store found) found'
  else store

theorem putBoth_of_taken {found' : List FoundContact} (h : store.Taken U companyId found) :
    putBoth U companyId store found found' =
      put U companyId (put U companyId store found) found' := by
  unfold putBoth
  rw [storeContacts_of_taken h]
  rfl

theorem putBoth_of_not_taken {found' : List FoundContact} (h : ¬store.Taken U companyId found) :
    putBoth U companyId store found found' = store := by
  unfold putBoth
  rw [storeContacts_of_not_taken h]
  rfl

theorem isPrefix_putBoth {found' : List FoundContact} :
    store.contacts <+: (putBoth U companyId store found found').contacts := by
  by_cases htaken : store.Taken U companyId found
  · rw [putBoth_of_taken htaken]
    exact isPrefix_put.trans isPrefix_put
  · rw [putBoth_of_not_taken htaken]

/-- They store nothing exactly if a commit is refused before there is anything new, or there is
nothing new at all. -/
theorem contacts_putBoth_eq_iff {found' : List FoundContact} :
    (putBoth U companyId store found found').contacts = store.contacts ↔
      ¬store.Taken U companyId found ∨ (AllKnown U companyId store found ∧
        (AllKnown U companyId store found' ∨ ¬store.Taken U companyId found')) := by
  by_cases htaken : store.Taken U companyId found
  · rw [putBoth_of_taken htaken, or_iff_right (not_not.mpr htaken)]
    constructor
    · intro h
      have hle : store.contacts <+: (put U companyId store found).contacts := isPrefix_put
      have hle' : (put U companyId store found).contacts <+: store.contacts := by
        rw [← h]
        exact isPrefix_put
      have hfirst := (hle.eq_of_length_le hle'.length_le).symm
      have hknown := (contacts_put_eq_iff.mp hfirst).resolve_right (not_not.mpr htaken)
      rw [put_eq_self hknown] at h
      exact ⟨hknown, contacts_put_eq_iff.mp h⟩
    · rintro ⟨hknown, hsecond⟩
      rw [put_eq_self hknown]
      exact contacts_put_eq_iff.mpr hsecond
  · rw [putBoth_of_not_taken htaken]
    exact iff_of_true rfl (Or.inl htaken)

end ContactStore

open ContactStore

/-! ## A run with given answers -/

/-- The contacts that come out of a call. -/
def Attempt.contacts : Attempt → List FoundContact
  | .found contacts => contacts
  | .timeout | .apiError _ | .unexpectedError _ => []

/-- What a provider finds, nothing without a client. -/
def foundBy (U : Unicode) (service : EnrichmentService) (answers : Answers) (companyId : ℕ)
    (p : Provider) (store : ContactStore) : List FoundContact :=
  if service.configured p then (tryProvider U service answers companyId p store).contacts else []

/-- The calls of a run are answered so, and it has time for all of them. -/
structure Course.Answered (course : Course) (U : Unicode) (service : EnrichmentService)
    (answers : Answers) (companyId : ℕ) : Prop where
  attempt : course.attempt = tryProvider U service answers companyId
  inTime : ∀ p, course.elapsed p < enrichmentTimeout

section

variable {U : Unicode} {service : EnrichmentService} {answers : Answers} {course : Course}
  {companyId : ℕ} {p : Provider} {ps : List Provider} {s : WaterfallState} {store : ContactStore}

/-- A provider that is not passed over. -/
theorem due_of_not_skipped (hraised : s.raised = false) (hconfigured : service.configured p = true)
    (hturn : ¬(p.alwaysRun = false ∧ s.result.verifiedFound = true)) : Due service p s := by
  refine ⟨hraised, hconfigured, fun hrun => ?_⟩
  rw [Bool.eq_false_iff]
  exact fun hfound => hturn ⟨hrun, hfound⟩

variable (service) in
/-- A turn whose contacts the database takes. -/
theorem call_of_taken
    (htaken : s.store.Taken U companyId (course.attempt p s.store).contacts) :
    (call U service course companyId p s).raised = s.raised ∧
      (call U service course companyId p s).store =
        put U companyId s.store (course.attempt p s.store).contacts ∧
      (call U service course companyId p s).result.verifiedFound = (s.result.verifiedFound ||
        (course.attempt p s.store).contacts.any (isVerifiedTarget U service)) := by
  rw [put_of_taken htaken]
  unfold call
  revert htaken
  cases course.attempt p s.store with
  | timeout => exact fun _ => ⟨rfl, rfl, (Bool.or_false _).symm⟩
  | apiError message => exact fun _ => ⟨rfl, rfl, (Bool.or_false _).symm⟩
  | unexpectedError message => exact fun _ => ⟨rfl, rfl, (Bool.or_false _).symm⟩
  | found contacts =>
    cases contacts with
    | nil => exact fun _ => ⟨rfl, rfl, (Bool.or_false _).symm⟩
    | cons c cs =>
      intro htaken
      rw [settle_of_taken (s := s.tried p) (List.cons_ne_nil c cs) htaken]
      exact ⟨rfl, rfl, rfl⟩

/-- A turn of a run that has time, if the database takes what is found. -/
theorem exists_turn (h : course.Answered U service answers companyId) (ps : List Provider)
    (hraised : s.raised = false) (hturn : ¬(p.alwaysRun = false ∧ s.result.verifiedFound = true))
    (htaken : s.store.Taken U companyId (foundBy U service answers companyId p s.store)) :
    ∃ s', waterfallLoop U service course companyId (p :: ps) s =
        waterfallLoop U service course companyId ps s' ∧ s'.raised = false ∧
      s'.store = put U companyId s.store (foundBy U service answers companyId p s.store) ∧
      s'.result.verifiedFound = (s.result.verifiedFound ||
        (foundBy U service answers companyId p s.store).any (isVerifiedTarget U service)) := by
  unfold foundBy at htaken ⊢
  by_cases hconfigured : service.configured p = true
  · rw [if_pos hconfigured, ← h.attempt] at htaken ⊢
    obtain ⟨hflag, hstore, hverified⟩ := call_of_taken service htaken
    exact ⟨_, waterfallLoop_of_due (due_of_not_skipped hraised hconfigured hturn) (h.inTime p),
      hflag.trans hraised, hstore, hverified⟩
  · rw [if_neg hconfigured]
    exact ⟨s, waterfallLoop_of_unconfigured (by simpa using hconfigured), hraised,
      (put_eq_self allKnown_nil).symm, (Bool.or_false _).symm⟩

/-- If it does not, the run ends there. -/
theorem store_of_refused (h : course.Answered U service answers companyId) (ps : List Provider)
    (hraised : s.raised = false) (hturn : ¬(p.alwaysRun = false ∧ s.result.verifiedFound = true))
    (hrefused : ¬s.store.Taken U companyId (foundBy U service answers companyId p s.store)) :
    (waterfallLoop U service course companyId (p :: ps) s).store = s.store := by
  unfold foundBy at hrefused
  by_cases hconfigured : service.configured p = true
  · rw [if_pos hconfigured, ← h.attempt] at hrefused
    rw [waterfallLoop_of_due (due_of_not_skipped hraised hconfigured hturn) (h.inTime p)]
    unfold call
    revert hrefused
    cases course.attempt p s.store with
    | timeout => exact fun hrefused => absurd taken_nil hrefused
    | apiError message => exact fun hrefused => absurd taken_nil hrefused
    | unexpectedError message => exact fun hrefused => absurd taken_nil hrefused
    | found contacts =>
      intro hrefused
      have hrefused : ¬(s.tried p).store.Taken U companyId contacts := hrefused
      rw [settle_of_not_taken (s := s.tried p) hrefused, waterfallLoop_of_raised rfl]
      rfl
  · rw [if_neg hconfigured] at hrefused
    exact absurd taken_nil hrefused

/-- A turn that is the last one. -/
theorem store_last_turn (h : course.Answered U service answers companyId)
    (hraised : s.raised = false)
    (hturn : ¬(p.alwaysRun = false ∧ s.result.verifiedFound = true)) :
    (waterfallLoop U service course companyId [p] s).store =
      put U companyId s.store (foundBy U service answers companyId p s.store) := by
  by_cases htaken : s.store.Taken U companyId (foundBy U service answers companyId p s.store)
  · obtain ⟨s', hloop, -, hstore, -⟩ := exists_turn h [] hraised hturn htaken
    rw [hloop]
    exact hstore
  · rw [store_of_refused h [] hraised hturn htaken, put_of_not_taken htaken]

/-- A turn that is passed over. -/
theorem waterfallLoop_of_skipped
    (hturn : p.alwaysRun = false ∧ s.result.verifiedFound = true) :
    waterfallLoop U service course companyId (p :: ps) s =
      waterfallLoop U service course companyId ps s :=
  waterfallLoop_of_verified hturn.2 hturn.1

end

/-! ## The supplement once more -/

/-- What the supplement is answered, nothing without a client or after an exception. -/
def supplementAnswer (service : EnrichmentService) (answers : Answers) : List ExtractedContact :=
  if service.configured .gemini then answers.findContactsWithContext.toOption.getD [] else []

/-- A decision maker with a name of white space and without an email: it has no key. -/
structure Nameless (U : Unicode) (service : EnrichmentService) (ec : ExtractedContact) :
    Prop where
  name : ec.name ≠ []
  blank : nameKey U ec.name = []
  email : ec.email.getD [] = []
  wanted : isWanted U service ec = true

section

variable {U : Unicode} {service : EnrichmentService} {answers : Answers} {companyId : ℕ}
  {store store' : ContactStore} {emails names : List (List Char)} {ec : ExtractedContact}
  {ecs : List ExtractedContact} {c : FoundContact} {r : Contact} {k : List Char}

theorem foundBy_gemini : foundBy U service answers companyId .gemini store =
    (keptByGemini U service (knownEmails U (store.ofCompany companyId))
      (knownNames U (store.ofCompany companyId)) (supplementAnswer service answers)).map
      (geminiContact service answers) := by
  unfold foundBy supplementAnswer
  by_cases hconfigured : service.configured .gemini = true
  · rw [if_pos hconfigured, if_pos hconfigured]
    show tryGemini U service answers (store.ofCompany companyId) = _
    unfold tryGemini
    cases answers.findContactsWithContext with
    | error e => rfl
    | ok extracted => rfl
  · rw [if_neg hconfigured, if_neg hconfigured]
    rfl

theorem emailKey_eq_some : Dedup.emailKey U r = some k ↔
    r.email.getD [] ≠ [] ∧ emailText U r.email = k := by
  unfold Dedup.emailKey emailText
  cases r.email with
  | none => simp
  | some e =>
    by_cases he : e = []
    · simp [he]
    · simp [he]

theorem foundKey_eq_some : c.emailKey U = some k ↔
    c.email.getD [] ≠ [] ∧ emailText U c.email = k := emailKey_eq_some

theorem emailText_ne_nil (hU : U.LowerNonempty) {email : Option (List Char)}
    (h : email.getD [] ≠ []) : emailText U email ≠ [] := fun hnil => h (hU _ hnil)

/-- A key that is known once `d` is kept was known before, or is one that is kept. -/
theorem known_cons (key : ExtractedContact → List Char) {keys : List (List Char)}
    {d : ExtractedContact} {kept : List ExtractedContact}
    (h : key ec ∈ addKey (key d) keys ∨ ∃ d' ∈ kept, key d' = key ec) :
    key ec ∈ keys ∨ ∃ d' ∈ d :: kept, key d' = key ec := by
  rcases h with hin | ⟨d', hd', heq⟩
  · rcases mem_addKey.mp hin with ⟨-, heq⟩ | hin
    · exact Or.inr ⟨d, List.mem_cons_self, heq.symm⟩
    · exact Or.inl hin
  · exact Or.inr ⟨d', List.mem_cons_of_mem d hd', heq⟩

/-- A wanted contact is kept, or one of its keys is known. -/
theorem kept_or_known (emails names : List (List Char)) (hmem : ec ∈ ecs) (hname : ec.name ≠ [])
    (hwanted : isWanted U service ec = true) :
    ec ∈ keptByGemini U service emails names ecs ∨
      (emailText U ec.email ≠ [] ∧ (emailText U ec.email ∈ emails ∨
        ∃ d ∈ keptByGemini U service emails names ecs,
          emailText U d.email = emailText U ec.email)) ∨
      (nameKey U ec.name ≠ [] ∧ (nameKey U ec.name ∈ names ∨
        ∃ d ∈ keptByGemini U service emails names ecs, nameKey U d.name = nameKey U ec.name)) := by
  induction ecs generalizing emails names with
  | nil => cases hmem
  | cons d ecs ih =>
    unfold keptByGemini
    split
    · rename_i hdropped
      rcases List.mem_cons.mp hmem with rfl | hmem
      · -- the keys are the only other reasons to drop it
        right
        by_contra hunknown
        have hfalse : isDropped U service emails names ec = false := by
          refine isDropped_eq_false.mpr ⟨hname, fun hne hin => ?_, fun hne hin => ?_, hwanted⟩
          · exact hunknown (Or.inl ⟨hne, Or.inl hin⟩)
          · exact hunknown (Or.inr ⟨hne, Or.inl hin⟩)
        rw [hdropped] at hfalse
        cases hfalse
      · exact ih emails names hmem
    · rcases List.mem_cons.mp hmem with rfl | hmem
      · exact Or.inl List.mem_cons_self
      · rcases ih (addKey (emailText U d.email) emails)
          (addKey (nameKey U d.name) names) hmem with hkept | ⟨hne, hor⟩ | ⟨hne, hor⟩
        · exact Or.inl (List.mem_cons_of_mem d hkept)
        · exact Or.inr (Or.inl ⟨hne, known_cons (fun ec => emailText U ec.email) hor⟩)
        · exact Or.inr (Or.inr ⟨hne, known_cons (fun ec => nameKey U ec.name) hor⟩)

/-- A contact without a key is always kept. -/
theorem Nameless.mem_keptByGemini (h : Nameless U service ec) (hmem : ec ∈ ecs) :
    ec ∈ keptByGemini U service emails names ecs := by
  rcases kept_or_known emails names hmem h.name h.wanted with
    hkept | ⟨hne, -⟩ | ⟨hne, -⟩
  · exact hkept
  · exact absurd (emailText_nil h.email) hne
  · exact absurd h.blank hne

/-- All contacts of the supplement are stored. -/
theorem newContacts_gemini (hU : U.LowerNonempty) :
    store.newContacts U companyId (foundBy U service answers companyId .gemini store) =
      foundBy U service answers companyId .gemini store := by
  rw [foundBy_gemini]
  apply unseen_eq_self
  · intro c hc k hk hseen
    obtain ⟨ec, hec, rfl⟩ := List.mem_map.mp hc
    obtain ⟨hne, rfl⟩ := foundKey_eq_some.mp hk
    obtain ⟨-, hkept⟩ := mem_keptByGemini hec
    obtain ⟨-, hemails, -⟩ := isDropped_eq_false.mp hkept
    have htext : emailText U ec.email ≠ [] := emailText_ne_nil hU hne
    obtain ⟨r, hr, hkr⟩ := mem_existingEmails.mp hseen
    have heq : emailText U r.email = emailText U ec.email := (emailKey_eq_some.mp hkr).2
    refine hemails htext ?_
    rw [← heq]
    exact mem_knownEmails hr (heq ▸ htext)
  · refine List.pairwise_map.mpr (pairwise_keptByGemini.imp fun {ec ec'} hdistinct k hk hk' => ?_)
    obtain ⟨hne, rfl⟩ := foundKey_eq_some.mp hk
    have htext : emailText U ec.email ≠ [] := emailText_ne_nil hU hne
    exact hdistinct.email htext (foundKey_eq_some.mp hk').2.symm

/-- The contacts that the supplement has added are among the rows. -/
theorem exists_row_gemini (hU : U.LowerNonempty)
    (htaken : store.Taken U companyId (foundBy U service answers companyId .gemini store))
    (hec : ec ∈ keptByGemini U service (knownEmails U (store.ofCompany companyId))
      (knownNames U (store.ofCompany companyId)) (supplementAnswer service answers)) :
    ∃ r ∈ (put U companyId store (foundBy U service answers companyId .gemini store)).ofCompany
      companyId, r.name = ec.name ∧ r.email = ec.email := by
  have hc : geminiContact service answers ec ∈ store.newContacts U companyId
      (foundBy U service answers companyId .gemini store) := by
    rw [newContacts_gemini hU, foundBy_gemini]
    exact List.mem_map_of_mem hec
  obtain ⟨id, hid⟩ := exists_mem_numbered companyId store.nextId hc
  exact ⟨_, mem_ofCompany.mpr ⟨(mem_put_contacts htaken).mpr (Or.inr hid), rfl⟩, rfl, rfl⟩

/-- Over the rows that the supplement has left, it keeps nobody again who has a key. -/
theorem nameless_of_kept_again (hU : U.LowerNonempty)
    (htaken : store.Taken U companyId (foundBy U service answers companyId .gemini store))
    (hrows : (put U companyId store (foundBy U service answers companyId .gemini store)).ofCompany
      companyId ⊆ store'.ofCompany companyId)
    (hec : ec ∈ keptByGemini U service (knownEmails U (store'.ofCompany companyId))
      (knownNames U (store'.ofCompany companyId)) (supplementAnswer service answers)) :
    Nameless U service ec := by
  obtain ⟨hmem, hkept⟩ := mem_keptByGemini hec
  obtain ⟨hname, hemails, hnames, hwanted⟩ := isDropped_eq_false.mp hkept
  -- no row has a key of this contact
  have hrow {r : Contact} (hr : r ∈ store'.ofCompany companyId) :
      Distinct U ec.name r.name ec.email r.email := by
    refine ⟨fun hne heq => ?_, fun hne heq => ?_⟩
    · exact hnames hne (heq ▸ mem_knownNames hr (heq ▸ hne))
    · exact hemails hne (heq ▸ mem_knownEmails hr (heq ▸ hne))
  have hold {r : Contact} (hr : r ∈ store.ofCompany companyId) :
      Distinct U ec.name r.name ec.email r.email := hrow (hrows (ofCompany_subset_put hr))
  have hadded {d : ExtractedContact}
      (hd : d ∈ keptByGemini U service (knownEmails U (store.ofCompany companyId))
        (knownNames U (store.ofCompany companyId)) (supplementAnswer service answers)) :
      Distinct U ec.name d.name ec.email d.email := by
    obtain ⟨r, hr, hrname, hremail⟩ := exists_row_gemini hU htaken hd
    rw [← hrname, ← hremail]
    exact hrow (hrows hr)
  rcases kept_or_known (knownEmails U (store.ofCompany companyId))
    (knownNames U (store.ofCompany companyId)) hmem hname hwanted with
    hfirst | ⟨hne, hor⟩ | ⟨hne, hor⟩
  · -- it was added in the first run, so it has no key
    have hself := hadded hfirst
    have hblank : nameKey U ec.name = [] := by
      by_contra hne
      exact hself.name hne rfl
    have hnone : ec.email.getD [] = [] := by
      by_contra hne
      exact hself.email (emailText_ne_nil hU hne) rfl
    exact ⟨hname, hblank, hnone, hwanted⟩
  · -- its email would be that of a row, old or added
    rcases hor with hin | ⟨d, hd, heq⟩
    · obtain ⟨r, hr, heq⟩ := List.mem_map.mp hin
      exact absurd heq.symm ((hold (List.mem_of_mem_filter hr)).email hne)
    · exact absurd heq.symm ((hadded hd).email hne)
  · -- the same for its name
    rcases hor with hin | ⟨d, hd, heq⟩
    · obtain ⟨r, hr, heq⟩ := List.mem_map.mp hin
      exact absurd heq.symm ((hold (List.mem_of_mem_filter hr)).name hne)
    · exact absurd heq.symm ((hadded hd).name hne)

/-- Over these rows the supplement adds something only if there is a contact without a key. -/
theorem foundBy_gemini_again (hU : U.LowerNonempty)
    (htaken : store.Taken U companyId (foundBy U service answers companyId .gemini store))
    (hrows : (put U companyId store (foundBy U service answers companyId .gemini store)).ofCompany
      companyId ⊆ store'.ofCompany companyId)
    (hnone : ∀ ec ∈ supplementAnswer service answers, ¬Nameless U service ec) :
    foundBy U service answers companyId .gemini store' = [] := by
  rw [foundBy_gemini, List.map_eq_nil_iff, List.eq_nil_iff_forall_not_mem]
  intro ec hec
  exact hnone ec (mem_keptByGemini hec).1 (nameless_of_kept_again hU htaken hrows hec)

/-- And these the database has taken before. -/
theorem taken_gemini_again (hU : U.LowerNonempty)
    (htaken : store.Taken U companyId (foundBy U service answers companyId .gemini store))
    (hrows : (put U companyId store (foundBy U service answers companyId .gemini store)).ofCompany
      companyId ⊆ store'.ofCompany companyId) :
    store'.Taken U companyId (foundBy U service answers companyId .gemini store') := by
  intro c hc
  have hc := mem_of_mem_unseen hc
  rw [foundBy_gemini] at hc
  obtain ⟨ec, hec, rfl⟩ := List.mem_map.mp hc
  have hnameless := nameless_of_kept_again hU htaken hrows hec
  apply htaken
  rw [newContacts_gemini hU, foundBy_gemini]
  exact List.mem_map_of_mem (hnameless.mem_keptByGemini (mem_keptByGemini hec).1)

theorem not_allKnown_gemini
    (h : ∃ ec ∈ supplementAnswer service answers, Nameless U service ec) :
    ¬AllKnown U companyId store' (foundBy U service answers companyId .gemini store') := by
  obtain ⟨ec, hmem, hnameless⟩ := h
  intro hknown
  have hc : geminiContact service answers ec ∈
      foundBy U service answers companyId .gemini store' := by
    rw [foundBy_gemini]
    exact List.mem_map_of_mem (hnameless.mem_keptByGemini hmem)
  obtain ⟨k, hk, -⟩ := hknown _ hc
  exact (foundKey_eq_some.mp hk).1 hnameless.email

end

/-! ## Two runs -/

section

variable (U : Unicode) (service : EnrichmentService) (answers : Answers) (companyId : ℕ)
  (store : ContactStore)

/-- The rows at the turn of the supplement. -/
def afterHunter : ContactStore :=
  put U companyId store (foundBy U service answers companyId .hunter store)

/-- Whom the supplement returns. -/
def supplement : List FoundContact :=
  foundBy U service answers companyId .gemini (afterHunter U service answers companyId store)

/-- The rows after its turn. -/
def afterSupplement : ContactStore :=
  put U companyId (afterHunter U service answers companyId store)
    (supplement U service answers companyId store)

/-- One of the contacts is verified, with a target title. -/
def anyVerified (contacts : List FoundContact) : Bool :=
  contacts.any (isVerifiedTarget U service)

/-- The rows at the turn of the scraped pages, in a first run that comes to it; if the supplement
has ended that run, in the second. -/
def afterScrapin : ContactStore :=
  if anyVerified U service (supplement U service answers companyId store) then
    afterSupplement U service answers companyId store
  else
    put U companyId (afterSupplement U service answers companyId store)
      (foundBy U service answers companyId .scrapin store)

end

section

variable {U : Unicode} {service : EnrichmentService} {answers : Answers} {course : Course}
  {companyId : ℕ} {store : ContactStore} {c : FoundContact} {k : List Char}

/-- ScrapIn verifies no email. -/
theorem anyVerified_scrapin :
    anyVerified U service (foundBy U service answers companyId .scrapin store) = false := by
  unfold anyVerified
  rw [List.any_eq_false]
  intro c hc
  unfold foundBy at hc
  split at hc
  · change c ∈ (Attempt.ofExcept (tryScrapin U service answers)).contacts at hc
    unfold tryScrapin at hc
    cases hanswer : answers.findContacts with
    | error e =>
      rw [hanswer] at hc
      cases e with
      | apiError message => cases hc
      | other message => cases hc
    | ok results =>
      rw [hanswer] at hc
      obtain ⟨sc, -, rfl⟩ := List.mem_map.mp hc
      unfold isVerifiedTarget
      dsimp only
      split
      · simp
      · simp
  · cases hc

/-- Hunter's contacts have emails. -/
theorem exists_emailKey_hunter (hc : c ∈ foundBy U service answers companyId .hunter store) :
    ∃ k, c.emailKey U = some k := by
  unfold foundBy at hc
  split at hc
  · change c ∈ (Attempt.ofExcept (tryHunter U service answers)).contacts at hc
    unfold tryHunter at hc
    cases hanswer : answers.domainSearch with
    | error e =>
      rw [hanswer] at hc
      cases e with
      | apiError message => cases hc
      | other message => cases hc
    | ok results =>
      rw [hanswer] at hc
      obtain ⟨e, he, rfl⟩ := List.mem_map.mp hc
      have hvalue : e.value ≠ [] := by
        have hkept := (List.mem_filter.mp he).2
        rw [Bool.and_eq_true] at hkept
        exact of_decide_eq_true hkept.1
      exact ⟨_, foundKey_eq_some.mpr ⟨hvalue, rfl⟩⟩
  · cases hc

/-- Hunter's contacts are not stored, and the run has ended. -/
theorem store_run_of_refused_hunter (h : course.Answered U service answers companyId)
    (hhunter : ¬store.Taken U companyId (foundBy U service answers companyId .hunter store)) :
    (runContactWaterfall U service course companyId store).store = store :=
  store_of_refused h [.gemini, .scrapin, .scrapedContent] (s := .start companyId store) rfl
    (fun hskip => Bool.false_ne_true hskip.2) hhunter

/-- From the turn of the supplement on. -/
theorem exists_turn_hunter (h : course.Answered U service answers companyId)
    (hhunter : store.Taken U companyId (foundBy U service answers companyId .hunter store)) :
    ∃ s₁, runContactWaterfall U service course companyId store =
        waterfallLoop U service course companyId [.gemini, .scrapin, .scrapedContent] s₁ ∧
      s₁.raised = false ∧ s₁.store = afterHunter U service answers companyId store ∧
      s₁.result.verifiedFound =
        anyVerified U service (foundBy U service answers companyId .hunter store) := by
  obtain ⟨s₁, hloop₁, hraised₁, hstore₁, hverified₁⟩ := exists_turn h
    [.gemini, .scrapin, .scrapedContent] (s := .start companyId store) rfl
    (fun hskip => Bool.false_ne_true hskip.2) hhunter
  exact ⟨s₁, hloop₁, hraised₁, hstore₁, hverified₁.trans (Bool.false_or _)⟩

/-- Nor are the contacts of the supplement. -/
theorem store_run_of_refused_supplement (h : course.Answered U service answers companyId)
    (hhunter : store.Taken U companyId (foundBy U service answers companyId .hunter store))
    (hsupplement : ¬(afterHunter U service answers companyId store).Taken U companyId
      (supplement U service answers companyId store)) :
    (runContactWaterfall U service course companyId store).store =
      afterHunter U service answers companyId store := by
  obtain ⟨s₁, hloop₁, hraised₁, hstore₁, -⟩ := exists_turn_hunter h hhunter
  unfold supplement at hsupplement
  rw [← hstore₁] at hsupplement ⊢
  rw [hloop₁]
  exact store_of_refused h [.scrapin, .scrapedContent] hraised₁
    (fun hskip => absurd hskip.1 (by decide)) hsupplement

/-- The rows that a run leaves, if the database takes the contacts of these two. -/
theorem store_run (h : course.Answered U service answers companyId)
    (hhunter : store.Taken U companyId (foundBy U service answers companyId .hunter store))
    (hsupplement : (afterHunter U service answers companyId store).Taken U companyId
      (supplement U service answers companyId store)) :
    (runContactWaterfall U service course companyId store).store =
      if anyVerified U service (foundBy U service answers companyId .hunter store) ∨
          anyVerified U service (supplement U service answers companyId store) then
        afterSupplement U service answers companyId store
      else
        putBoth U companyId (afterSupplement U service answers companyId store)
          (foundBy U service answers companyId .scrapin store)
          (foundBy U service answers companyId .scrapedContent store) := by
  obtain ⟨s₁, hloop₁, hraised₁, hstore₁, hverified₁⟩ := exists_turn_hunter h hhunter
  have htaken₁ : s₁.store.Taken U companyId
      (foundBy U service answers companyId .gemini s₁.store) := by
    rw [hstore₁]
    exact hsupplement
  obtain ⟨s₂, hloop₂, hraised₂, hstore₂, hverified₂⟩ := exists_turn h [.scrapin, .scrapedContent]
    hraised₁ (fun hskip => absurd hskip.1 (by decide)) htaken₁
  rw [hloop₁, hloop₂]
  rw [hstore₁] at hstore₂ hverified₂
  have hstore₂ : s₂.store = afterSupplement U service answers companyId store := hstore₂
  have hflag : s₂.result.verifiedFound = true ↔
      anyVerified U service (foundBy U service answers companyId .hunter store) = true ∨
        anyVerified U service (supplement U service answers companyId store) = true := by
    rw [hverified₂, hverified₁, Bool.or_eq_true]
    rfl
  by_cases hfound : s₂.result.verifiedFound = true
  · rw [if_pos (hflag.mp hfound), waterfallLoop_of_skipped ⟨rfl, hfound⟩,
      waterfallLoop_of_skipped ⟨rfl, hfound⟩]
    exact hstore₂
  · rw [if_neg fun hor => hfound (hflag.mpr hor), ← hstore₂]
    have hturn {p : Provider} : ¬(p.alwaysRun = false ∧ s₂.result.verifiedFound = true) :=
      fun hskip => hfound hskip.2
    by_cases hscrapin : s₂.store.Taken U companyId
        (foundBy U service answers companyId .scrapin store)
    · obtain ⟨s₃, hloop₃, hraised₃, hstore₃, hverified₃⟩ := exists_turn h [.scrapedContent]
        hraised₂ hturn hscrapin
      -- ScrapIn verifies nothing, so its turn does not change whether the search goes on
      have hflag₃ : s₃.result.verifiedFound = s₂.result.verifiedFound := by
        have hnone : (foundBy U service answers companyId .scrapin s₂.store).any
            (isVerifiedTarget U service) = false := anyVerified_scrapin
        rw [hverified₃, hnone, Bool.or_false]
      rw [hloop₃, store_last_turn h hraised₃ (by rw [hflag₃]; exact hturn), hstore₃,
        putBoth_of_taken hscrapin]
      rfl
    · rw [store_of_refused h [.scrapedContent] hraised₂ hturn hscrapin,
        putBoth_of_not_taken hscrapin]

/-- The emails of the company at the end of the supplement's turn. -/
theorem mem_existingEmails_afterSupplement
    (hhunter : store.Taken U companyId (foundBy U service answers companyId .hunter store))
    (hsupplement : (afterHunter U service answers companyId store).Taken U companyId
      (supplement U service answers companyId store)) :
    k ∈ (afterSupplement U service answers companyId store).existingEmails U companyId ↔
      k ∈ store.existingEmails U companyId ∨
        ∃ c ∈ foundBy U service answers companyId .hunter store ++
          supplement U service answers companyId store, c.emailKey U = some k := by
  unfold afterSupplement
  rw [mem_existingEmails_put hsupplement]
  unfold afterHunter
  rw [mem_existingEmails_put hhunter, or_assoc]
  refine or_congr_right ?_
  simp only [List.mem_append, or_and_right, exists_or]

/-- A run keeps the rows that the supplement has left. -/
theorem afterSupplement_isPrefix_run (h : course.Answered U service answers companyId)
    (hhunter : store.Taken U companyId (foundBy U service answers companyId .hunter store))
    (hsupplement : (afterHunter U service answers companyId store).Taken U companyId
      (supplement U service answers companyId store)) :
    (afterSupplement U service answers companyId store).contacts <+:
      (runContactWaterfall U service course companyId store).store.contacts := by
  rw [store_run h hhunter hsupplement]
  split
  · exact List.prefix_refl _
  · exact isPrefix_putBoth

theorem ofCompany_subset {store' : ContactStore} (h : store.contacts <+: store'.contacts) :
    store.ofCompany companyId ⊆ store'.ofCompany companyId := by
  intro r hr
  obtain ⟨hmem, howner⟩ := mem_ofCompany.mp hr
  exact mem_ofCompany.mpr ⟨h.subset hmem, howner⟩

/-- Hunter's contacts are known once they have been stored. -/
theorem allKnown_hunter {store' : ContactStore}
    (hhunter : store.Taken U companyId (foundBy U service answers companyId .hunter store))
    (hrows : (afterHunter U service answers companyId store).contacts <+: store'.contacts) :
    AllKnown U companyId store' (foundBy U service answers companyId .hunter store') := by
  intro c hc
  obtain ⟨k, hk⟩ := exists_emailKey_hunter hc
  have hstored : k ∈ (afterHunter U service answers companyId store).existingEmails U companyId :=
    (mem_existingEmails_put hhunter).mpr (Or.inr ⟨c, hc, hk⟩)
  obtain ⟨r, hr, hkr⟩ := mem_existingEmails.mp hstored
  exact ⟨k, hk, mem_existingEmails.mpr ⟨r, ofCompany_subset hrows hr, hkr⟩⟩

/-- So Hunter's turn changes nothing any more. -/
theorem afterHunter_again {store' : ContactStore}
    (hknown : AllKnown U companyId store' (foundBy U service answers companyId .hunter store')) :
    afterHunter U service answers companyId store' = store' ∧
      supplement U service answers companyId store' =
        foundBy U service answers companyId .gemini store' ∧
      afterSupplement U service answers companyId store' =
        put U companyId store' (foundBy U service answers companyId .gemini store') := by
  have hself : afterHunter U service answers companyId store' = store' := put_eq_self hknown
  unfold afterSupplement supplement
  rw [hself]
  exact ⟨rfl, rfl, rfl⟩

/-- A run that the contacts of the supplement have ended comes no further the second time. -/
theorem store_again_of_refused_supplement {course' : Course}
    (h : course.Answered U service answers companyId)
    (h' : course'.Answered U service answers companyId)
    (hhunter : store.Taken U companyId (foundBy U service answers companyId .hunter store))
    (hsupplement : ¬(afterHunter U service answers companyId store).Taken U companyId
      (supplement U service answers companyId store)) :
    (runContactWaterfall U service course' companyId
        (runContactWaterfall U service course companyId store).store).store =
      (runContactWaterfall U service course companyId store).store := by
  rw [store_run_of_refused_supplement h hhunter hsupplement]
  have hknown := allKnown_hunter hhunter
    (List.prefix_refl (afterHunter U service answers companyId store).contacts)
  obtain ⟨hself, hagain, -⟩ := afterHunter_again hknown
  have hrefused : ¬(afterHunter U service answers companyId
      (afterHunter U service answers companyId store)).Taken U companyId
      (supplement U service answers companyId
        (afterHunter U service answers companyId store)) := by
    rw [hself, hagain]
    exact hsupplement
  rw [store_run_of_refused_supplement h' hknown.taken hrefused, hself]

/-- A run adds no contact exactly if it leaves the rows as they are. -/
theorem contactsAdded_eq_zero_iff :
    (runContactWaterfall U service course companyId store).result.contactsAdded = 0 ↔
      (runContactWaterfall U service course companyId store).store.contacts = store.contacts := by
  obtain ⟨added, hgrows, hcount⟩ := waterfallLoop_grows U service course companyId Provider.all
    (.start companyId store)
  obtain ⟨new, hnew, hlength, -⟩ := hgrows.contacts
  have hcount : (runContactWaterfall U service course companyId store).result.contactsAdded =
      added := hcount.trans (Nat.zero_add added)
  have hnew : (runContactWaterfall U service course companyId store).store.contacts =
      store.contacts ++ new := hnew
  rw [hcount, hnew, ← hlength, List.length_eq_zero_iff, List.append_right_eq_self]

end

/-- The contacts all have an email; if the supplement ends the first run, it is one of the emails
that are there by then. -/
def Recognisable (U : Unicode) (service : EnrichmentService) (answers : Answers)
    (companyId : ℕ) (store : ContactStore) (found : List FoundContact) : Prop :=
  (∀ c ∈ found, c.email.getD [] ≠ []) ∧
    (anyVerified U service (supplement U service answers companyId store) = true →
      ∀ c ∈ found, ∃ k, c.emailKey U = some k ∧ (k ∈ store.existingEmails U companyId ∨
        ∃ d ∈ foundBy U service answers companyId .hunter store ++
          supplement U service answers companyId store, d.emailKey U = some k))

/-- What a company's answers have to be for a second run to add nothing: the supplement returns no
contact without a key; and Hunter has a verified contact with a target title, or the contacts of
ScrapIn and then those of the scraped pages are recognisable, unless the database refuses them. -/
structure Recognised (U : Unicode) (service : EnrichmentService) (answers : Answers)
    (companyId : ℕ) (store : ContactStore) : Prop where
  supplement : ∀ ec ∈ supplementAnswer service answers, ¬Nameless U service ec
  fallbacks : anyVerified U service (foundBy U service answers companyId .hunter store) = true ∨
    ¬(afterSupplement U service answers companyId store).Taken U companyId
      (foundBy U service answers companyId .scrapin store) ∨
    (Recognisable U service answers companyId store
        (foundBy U service answers companyId .scrapin store) ∧
      (Recognisable U service answers companyId store
          (foundBy U service answers companyId .scrapedContent store) ∨
        ¬(afterScrapin U service answers companyId store).Taken U companyId
          (foundBy U service answers companyId .scrapedContent store)))

section

variable {U : Unicode} {service : EnrichmentService} {answers : Answers} {course course' : Course}
  {companyId : ℕ} {store store' : ContactStore} {found : List FoundContact}

theorem allKnown_iff_of_stored (hstored : ∀ c ∈ found, ∀ k, c.emailKey U = some k →
      k ∈ store.existingEmails U companyId) :
    AllKnown U companyId store found ↔ ∀ c ∈ found, c.email.getD [] ≠ [] := by
  constructor
  · intro hknown c hc
    obtain ⟨k, hk, -⟩ := hknown c hc
    exact (foundKey_eq_some.mp hk).1
  · intro hemails c hc
    have hk := (foundKey_eq_some (U := U)).mpr ⟨hemails c hc, rfl⟩
    exact ⟨_, hk, hstored c hc _ hk⟩

/-- The supplement has ended the first run. -/
theorem allKnown_iff_of_verified
    (hhunter : store.Taken U companyId (foundBy U service answers companyId .hunter store))
    (hsupplement : (afterHunter U service answers companyId store).Taken U companyId
      (supplement U service answers companyId store))
    (hverified : anyVerified U service (supplement U service answers companyId store) = true) :
    AllKnown U companyId (afterSupplement U service answers companyId store) found ↔
      Recognisable U service answers companyId store found := by
  unfold AllKnown Recognisable
  simp only [mem_existingEmails_afterSupplement hhunter hsupplement]
  constructor
  · intro hknown
    refine ⟨fun c hc => ?_, fun _ => hknown⟩
    obtain ⟨k, hk, -⟩ := hknown c hc
    exact (foundKey_eq_some.mp hk).1
  · exact fun hrecognisable => hrecognisable.2 hverified

theorem recognisable_iff_of_not_verified
    (hverified : anyVerified U service (supplement U service answers companyId store) = false) :
    Recognisable U service answers companyId store found ↔
      ∀ c ∈ found, c.email.getD [] ≠ [] := by
  refine and_iff_left fun htrue => ?_
  rw [hverified] at htrue
  cases htrue

/-- Over the rows that a first run has left, the last two providers add nothing exactly under the
condition on them. -/
theorem contacts_fallbacks_eq_iff (h : course.Answered U service answers companyId)
    (hhunter : store.Taken U companyId (foundBy U service answers companyId .hunter store))
    (hsupplement : (afterHunter U service answers companyId store).Taken U companyId
      (supplement U service answers companyId store))
    (hnone : anyVerified U service (foundBy U service answers companyId .hunter store) = false)
    {left : ContactStore} (hleft : (runContactWaterfall U service course companyId store).store =
      left) :
    (putBoth U companyId left (foundBy U service answers companyId .scrapin store)
        (foundBy U service answers companyId .scrapedContent store)).contacts = left.contacts ↔
      ¬(afterSupplement U service answers companyId store).Taken U companyId
        (foundBy U service answers companyId .scrapin store) ∨
      (Recognisable U service answers companyId store
          (foundBy U service answers companyId .scrapin store) ∧
        (Recognisable U service answers companyId store
            (foundBy U service answers companyId .scrapedContent store) ∨
          ¬(afterScrapin U service answers companyId store).Taken U companyId
            (foundBy U service answers companyId .scrapedContent store))) := by
  rw [contacts_putBoth_eq_iff]
  rw [store_run h hhunter hsupplement] at hleft
  unfold afterScrapin
  cases hverified : anyVerified U service (supplement U service answers companyId store) with
  | true =>
    rw [if_pos (Or.inr hverified)] at hleft
    rw [← hleft, allKnown_iff_of_verified hhunter hsupplement hverified,
      allKnown_iff_of_verified hhunter hsupplement hverified]
    rfl
  | false =>
    rw [if_neg (by simp [hnone, hverified])] at hleft
    rw [recognisable_iff_of_not_verified hverified, recognisable_iff_of_not_verified hverified]
    by_cases hscrapin : (afterSupplement U service answers companyId store).Taken U companyId
        (foundBy U service answers companyId .scrapin store)
    · -- the first run has stored the contacts of ScrapIn
      rw [putBoth_of_taken hscrapin] at hleft
      have hscrapin' : ∀ c ∈ foundBy U service answers companyId .scrapin store, ∀ k,
          c.emailKey U = some k → k ∈ left.existingEmails U companyId := by
        intro c hc k hk
        obtain ⟨r, hr, hkr⟩ := mem_existingEmails.mp
          ((mem_existingEmails_put hscrapin).mpr (Or.inr ⟨c, hc, hk⟩))
        rw [← hleft]
        exact mem_existingEmails.mpr ⟨r, ofCompany_subset_put hr, hkr⟩
      rw [allKnown_iff_of_stored hscrapin',
        or_iff_right (not_not.mpr (taken_again hscrapin hscrapin')),
        or_iff_right (not_not.mpr hscrapin), if_neg Bool.false_ne_true]
      refine and_congr_right fun _ => ?_
      by_cases hscraped : (put U companyId (afterSupplement U service answers companyId store)
          (foundBy U service answers companyId .scrapin store)).Taken U companyId
          (foundBy U service answers companyId .scrapedContent store)
      · have hscraped' : ∀ c ∈ foundBy U service answers companyId .scrapedContent store, ∀ k,
            c.emailKey U = some k → k ∈ left.existingEmails U companyId := by
          intro c hc k hk
          rw [← hleft]
          exact (mem_existingEmails_put hscraped).mpr (Or.inr ⟨c, hc, hk⟩)
        rw [allKnown_iff_of_stored hscraped',
          or_iff_left (not_not.mpr (taken_again hscraped hscraped')),
          or_iff_left (not_not.mpr hscraped)]
      · rw [put_of_not_taken hscraped] at hleft
        rw [← hleft]
        exact iff_of_true (Or.inr hscraped) (Or.inr hscraped)
    · rw [putBoth_of_not_taken hscrapin] at hleft
      rw [← hleft]
      exact iff_of_true (Or.inl hscrapin) (Or.inl hscrapin)

end

/-- A second run with the same answers and enough time adds no contact exactly if the database
refuses what Hunter or the supplement finds, or all answers are recognised. -/
theorem rerun_adds_nothing_iff (U : Unicode) (hU : U.LowerNonempty) (service : EnrichmentService)
    (answers : Answers) (companyId : ℕ) (store : ContactStore) (course course' : Course)
    (h : course.Answered U service answers companyId)
    (h' : course'.Answered U service answers companyId) :
    (runContactWaterfall U service course' companyId
        (runContactWaterfall U service course companyId store).store).result.contactsAdded = 0 ↔
      ¬store.Taken U companyId (foundBy U service answers companyId .hunter store) ∨
      ¬(afterHunter U service answers companyId store).Taken U companyId
        (supplement U service answers companyId store) ∨
      Recognised U service answers companyId store := by
  rw [contactsAdded_eq_zero_iff]
  by_cases hhunter : store.Taken U companyId (foundBy U service answers companyId .hunter store)
  case neg =>
    rw [store_run_of_refused_hunter h hhunter, store_run_of_refused_hunter h' hhunter]
    exact iff_of_true rfl (Or.inl hhunter)
  by_cases hsupplement : (afterHunter U service answers companyId store).Taken U companyId
      (supplement U service answers companyId store)
  case neg =>
    rw [store_again_of_refused_supplement h h' hhunter hsupplement]
    exact iff_of_true rfl (Or.inr (Or.inl hsupplement))
  rw [or_iff_right (not_not.mpr hhunter), or_iff_right (not_not.mpr hsupplement)]
  have hrows := afterSupplement_isPrefix_run h hhunter hsupplement
  have hfallbacks := contacts_fallbacks_eq_iff h hhunter hsupplement
  generalize (runContactWaterfall U service course companyId store).store = left at *
  -- Hunter's contacts are known, and of the supplement's only those without a key come again
  have hknown := allKnown_hunter hhunter (isPrefix_put.trans hrows)
  obtain ⟨hself, hagain, hafter⟩ := afterHunter_again hknown
  have htaken := taken_gemini_again hU hsupplement (ofCompany_subset hrows)
  have hrun := store_run h' hknown.taken (by rw [hself, hagain]; exact htaken)
  rw [hagain, hafter] at hrun
  rw [hrun]
  by_cases hnone : ∀ ec ∈ supplementAnswer service answers, ¬Nameless U service ec
  · have hnil : foundBy U service answers companyId .gemini left = [] :=
      foundBy_gemini_again hU hsupplement (ofCompany_subset hrows) hnone
    rw [hnil, put_eq_self allKnown_nil]
    show (if anyVerified U service (foundBy U service answers companyId .hunter store) = true ∨
        false = true then left else _).contacts = left.contacts ↔ _
    cases hverified : anyVerified U service (foundBy U service answers companyId .hunter store) with
    | true =>
      rw [if_pos (Or.inl rfl)]
      exact iff_of_true rfl ⟨hnone, Or.inl hverified⟩
    | false =>
      rw [if_neg (by simp)]
      refine (hfallbacks hverified rfl).trans ⟨fun hor => ⟨hnone, Or.inr hor⟩, fun hcond => ?_⟩
      exact hcond.fallbacks.resolve_left (by simp [hverified])
  · push Not at hnone
    refine iff_of_false (fun heq => ?_) fun hcond => ?_
    · -- the supplement stores the contact without a key again
      have hprefix : (put U companyId left
          (foundBy U service answers companyId .gemini left)).contacts <+: left.contacts := by
        rw [← heq]
        split
        · exact List.prefix_refl _
        · exact isPrefix_putBoth
      have hsame := (isPrefix_put.eq_of_length_le hprefix.length_le).symm
      exact not_allKnown_gemini hnone
        ((contacts_put_eq_iff.mp hsame).resolve_right (not_not.mpr htaken))
    · obtain ⟨ec, hmem, hnameless⟩ := hnone
      exact hcond.supplement ec hmem hnameless

/-- The course of a run in no time. -/
def promptCourse (U : Unicode) (service : EnrichmentService) (answers : Answers)
    (companyId : ℕ) : Course :=
  .prompt (tryProvider U service answers companyId)

theorem answered_promptCourse (U : Unicode) (service : EnrichmentService) (answers : Answers)
    (companyId : ℕ) :
    (promptCourse U service answers companyId).Answered U service answers companyId :=
  ⟨rfl, fun _ => by show (0 : ℤ) < 60000000; decide⟩

def emptyStore : ContactStore := ⟨[], 0, by decide⟩

/-- ScrapIn finds a CTO, with the given email. -/
def scrapinCto (email : Option (List Char)) : Answers :=
  { noAnswers with
    findContacts := .ok
      [{ fullName := some "Eva".toList, title := some "CTO".toList, email := email,
         confidence := 1 }] }

theorem rerun_adds_nothing_email :
    let answers := scrapinCto (some "eva@acme.nl".toList)
    let course := promptCourse .ascii fullService answers 1
    (runContactWaterfall .ascii fullService course 1 (runContactWaterfall .ascii fullService course
      1 emptyStore).store).result.contactsAdded = 0 := by
  intro answers course
  have hsupplement : supplementAnswer fullService answers = [] := rfl
  have hanswered := answered_promptCourse .ascii fullService answers 1
  refine (rerun_adds_nothing_iff .ascii Unicode.ascii_lowerNonempty fullService answers 1
    emptyStore course course hanswered hanswered).mpr (Or.inr (Or.inr ⟨?_, Or.inr (Or.inr
      ⟨⟨by decide +kernel, ?_⟩, Or.inl ⟨by decide +kernel, ?_⟩⟩)⟩))
  · rw [hsupplement]
    simp
  · exact fun hverified => absurd hverified (by decide +kernel)
  · exact fun hverified => absurd hverified (by decide +kernel)

/-- Without an email she is stored by every run. -/
theorem rerun_stores_again :
    ¬∀ (U : Unicode) (service : EnrichmentService) (answers : Answers) (companyId : ℕ)
      (store : ContactStore) (course course' : Course),
      course.Answered U service answers companyId → course'.Answered U service answers companyId →
      (runContactWaterfall U service course' companyId (runContactWaterfall U service course
        companyId store).store).result.contactsAdded = 0 := by
  intro hall
  have hanswered := answered_promptCourse .ascii fullService (scrapinCto none) 1
  have hzero := hall .ascii fullService (scrapinCto none) 1 emptyStore _ _ hanswered hanswered
  revert hzero
  decide +kernel

end Enrichment
end LeadPulse
