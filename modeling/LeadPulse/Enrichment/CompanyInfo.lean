import LeadPulse.Lib.PyStr
import LeadPulse.Lib.Run
import LeadPulse.LinkedIn.CompanyUrl
import Mathlib.Data.List.AList
import Mathlib.Data.Rat.Init

/-!
# Three writers of `company_info`

The JSON column `company_info` of a company is written by the scrape of its homepage
(`tasks/scraping.py`), by the scrape of its LinkedIn page (`services/linkedin_intelligence.py`) and
by the enrichment (`services/company_enrichment.py`). The first replaces the value, the second
adds its keys, and the third writes only where nothing has been written.

So a homepage scrape after a LinkedIn scrape loses what LinkedIn has told, `linkedin_lost`, and an
enrichment after it generates no profile. `keysKept_iff` says that these are the two ways to lose
keys, and that without them their order does not matter.
-/

namespace LeadPulse
namespace Enrichment

open PyStr

/-! ## The values -/

inductive Json where
  | null
  | bool (b : Bool)
  | num (q : ℚ)
  | str (s : String)
  | arr (items : List Json)
  | obj (members : List (String × Json))

namespace Json

def ofStr? (s : Option String) : Json := s.elim null str

def ofInt? (n : Option ℤ) : Json := n.elim null fun n => num n

end Json

/-- A JSON object. As in `JSONB`, the order of its keys says nothing. -/
abbrev JsonObject := AList fun _ : String => Json

/-- What the LLM makes of a website. -/
structure CompanyProfile where
  summary : String
  productsServices : Option String := none
  targetMarket : Option String := none
  technologies : List String := []
  companyCulture : Option String := none
  headquarters : Option String := none
  foundedYear : Option ℤ := none
  employeeCountEstimate : Option String := none
  fieldServiceIndicators : Option String := none
  digitalMaturitySignals : Option String := none
  operationalComplexity : Option String := none
deriving DecidableEq, Repr

def profileKeys : List String :=
  ["summary", "products_services", "target_market", "technologies", "company_culture",
    "headquarters", "founded_year", "employee_count_estimate", "field_service_indicators",
    "digital_maturity_signals", "operational_complexity"]

def CompanyProfile.modelDump (p : CompanyProfile) : JsonObject where
  entries :=
    [⟨"summary", .str p.summary⟩, ⟨"products_services", .ofStr? p.productsServices⟩,
      ⟨"target_market", .ofStr? p.targetMarket⟩,
      ⟨"technologies", .arr (p.technologies.map .str)⟩,
      ⟨"company_culture", .ofStr? p.companyCulture⟩, ⟨"headquarters", .ofStr? p.headquarters⟩,
      ⟨"founded_year", .ofInt? p.foundedYear⟩,
      ⟨"employee_count_estimate", .ofStr? p.employeeCountEstimate⟩,
      ⟨"field_service_indicators", .ofStr? p.fieldServiceIndicators⟩,
      ⟨"digital_maturity_signals", .ofStr? p.digitalMaturitySignals⟩,
      ⟨"operational_complexity", .ofStr? p.operationalComplexity⟩]
  nodupKeys := by
    have hnodup : profileKeys.Nodup := by decide
    exact hnodup

/-- Every profile has all the keys, null or not. -/
theorem CompanyProfile.mem_modelDump {p : CompanyProfile} {key : String} :
    key ∈ p.modelDump ↔ key ∈ profileKeys := Iff.rfl

structure LinkedInCompanyData where
  name : Option String := none
  description : Option String := none
  followerCount : Option ℤ := none
  employeeCount : Option String := none
  industry : Option String := none
  website : Option String := none
  headquarters : Option String := none
  founded : Option ℤ := none
  specialties : List String := []
deriving DecidableEq, Repr

structure LinkedInScrapeResult where
  companyData : Option LinkedInCompanyData := none
  rawItems : List Json := []

/-- The value under `linkedin`. -/
def LinkedInCompanyData.toJson (cd : LinkedInCompanyData) (scrapedAt : String) : Json :=
  .obj [("name", .ofStr? cd.name), ("description", .ofStr? cd.description),
    ("follower_count", .ofInt? cd.followerCount), ("employee_count", .ofStr? cd.employeeCount),
    ("industry", .ofStr? cd.industry), ("website", .ofStr? cd.website),
    ("headquarters", .ofStr? cd.headquarters), ("founded", .ofInt? cd.founded),
    ("specialties", .arr (cd.specialties.map .str)), ("scraped_at", .str scrapedAt)]

/-! ## The company -/

structure InfoCompany where
  domain : List Char
  linkedinUrl : Option (List Char) := none
  companyInfo : Option JsonObject := none

namespace InfoCompany

/-- `dict(company.company_info) if company.company_info else {}`. -/
def info (c : InfoCompany) : JsonObject := c.companyInfo.getD ∅

/-- `not company.company_info`. -/
def noInfo (c : InfoCompany) : Bool := c.info.entries.isEmpty

/-- `bool(company.linkedin_url)`. -/
def hasLinkedin (c : InfoCompany) : Bool := c.linkedinUrl.any (· ≠ [])

end InfoCompany

/-! ### The homepage -/

/-- The page is worth a profile. -/
def scrapeOk (page : Option (List Char)) : Bool := 50 ≤ (strip (page.getD [])).length

/-- A scrape of the homepage. There is no page if Firecrawl raises, and no profile if the LLM
does. -/
def scrapeCompany (page : Option (List Char)) (profile : Option CompanyProfile)
    (c : InfoCompany) : InfoCompany :=
  if scrapeOk page then
    let linkedinUrl := match LinkedIn.extractLinkedinCompanyUrl (page.getD []) with
      | none => c.linkedinUrl
      | some url => if c.hasLinkedin then c.linkedinUrl else some url
    -- the profile takes the place of whatever has been there
    let companyInfo := match profile with
      | none => c.companyInfo
      | some p => some p.modelDump
    { c with linkedinUrl := linkedinUrl, companyInfo := companyInfo }
  else c

/-! ### LinkedIn -/

def updateCompanyInfo (scraped : LinkedInScrapeResult) (scrapedAt : String) (c : InfoCompany) :
    InfoCompany :=
  match scraped.companyData with
  | none => c
  | some cd => { c with companyInfo := some (c.info.insert "linkedin" (cd.toJson scrapedAt)) }

def storeRawLinkedinData (scraped : LinkedInScrapeResult) (c : InfoCompany) : InfoCompany :=
  let items := Json.arr (scraped.rawItems.take 20)
  { c with companyInfo := some (c.info.insert "linkedin_raw_items" items) }

/-- A scrape of the LinkedIn page. There is no result if Apify raises, or if something does before
the commit. -/
def processCompany (scraped : Option LinkedInScrapeResult) (scrapedAt : String)
    (c : InfoCompany) : InfoCompany :=
  if c.hasLinkedin then
    match scraped with
    | none => c
    | some scraped => storeRawLinkedinData scraped (updateCompanyInfo scraped scrapedAt c)
  else c

/-! ### The enrichment -/

/-- A page of the website that has been stored with a signal. -/
structure CachedPage where
  sourceUrl : List Char
  rawMarkdown : List Char
deriving DecidableEq, Repr

def companyInfoPaths : List String := ["/", "/about", "/products", "/services"]

/-- The stored pages that are long enough, the first of a list of paths first. -/
def getCachedContent (domain : List Char) (pages : List CachedPage) : List Char :=
  let urls := companyInfoPaths.map fun path => "https://".toList ++ domain ++ path.toList
  let cached : AList fun _ : List Char => List Char := pages.foldl (fun cached page =>
    if urls.contains page.sourceUrl ∧ 50 ≤ (strip page.rawMarkdown).length then
      cached.insert page.sourceUrl page.rawMarkdown
    else cached) ∅
  urls.flatMap fun url => match cached.lookup url with
    | none => []
    | some md => "\n\n--- ".toList ++ url ++ " ---\n\n".toList ++ md

def generateCompanyInfo (pages : List CachedPage) (profile : Option CompanyProfile)
    (c : InfoCompany) : InfoCompany :=
  -- the caller has just tested the same
  if c.noInfo then
    if strip (getCachedContent c.domain pages) = [] then c
    else match profile with
      | none => c
      | some p => { c with companyInfo := some p.modelDump }
  else c

/-- An enrichment. There may be no LLM to ask, and there is no profile if it raises. -/
def enrichCompany (llm : Bool) (pages : List CachedPage) (profile : Option CompanyProfile)
    (c : InfoCompany) : InfoCompany :=
  if c.noInfo ∧ llm then generateCompanyInfo pages profile c else c

/-! ## Runs -/

inductive InfoAction where
  | scrapeCompany (page : Option (List Char)) (profile : Option CompanyProfile)
  | processCompany (scraped : Option LinkedInScrapeResult) (scrapedAt : String)
  | enrichCompany (llm : Bool) (pages : List CachedPage) (profile : Option CompanyProfile)

namespace InfoAction

def apply : InfoAction → InfoCompany → InfoCompany
  | .scrapeCompany page profile => Enrichment.scrapeCompany page profile
  | .processCompany scraped scrapedAt => Enrichment.processCompany scraped scrapedAt
  | .enrichCompany llm pages profile => Enrichment.enrichCompany llm pages profile

/-- There is content, and the service that is asked for it answers. -/
def Succeeds (c : InfoCompany) : InfoAction → Prop
  | .scrapeCompany page profile => scrapeOk page = true ∧ profile.isSome = true
  | .processCompany scraped _ => c.hasLinkedin = true ∧ scraped.isSome = true
  | .enrichCompany llm pages profile =>
    llm = true ∧ strip (getCachedContent c.domain pages) ≠ [] ∧ profile.isSome = true

instance (c : InfoCompany) : DecidablePred (Succeeds c)
  | .scrapeCompany _ _ => inferInstanceAs (Decidable (_ ∧ _))
  | .processCompany _ _ => inferInstanceAs (Decidable (_ ∧ _))
  | .enrichCompany _ _ _ => inferInstanceAs (Decidable (_ ∧ _ ∧ _))

/-- The keys that a success is to leave behind. -/
def keys : InfoAction → List String
  | .scrapeCompany _ _ => profileKeys
  | .processCompany scraped _ =>
    if (scraped.bind (·.companyData)).isSome then ["linkedin", "linkedin_raw_items"]
    else ["linkedin_raw_items"]
  | .enrichCompany _ _ _ => profileKeys

end InfoAction

/-- A company, and the keys that successes so far were to leave behind. -/
structure InfoState where
  company : InfoCompany
  stored : List String := []

namespace InfoState

/-- The company as it is discovered. -/
def start (domain : List Char) (linkedinUrl : Option (List Char)) : InfoState where
  company := { domain := domain, linkedinUrl := linkedinUrl }

def next (s : InfoState) (a : InfoAction) : InfoState where
  company := a.apply s.company
  stored := if a.Succeeds s.company then s.stored ++ a.keys else s.stored

def step (s : InfoState) (a : InfoAction) : Option InfoState := some (s.next a)

/-- The keys of `company_info` are those that have been left behind. -/
def KeysKept (s : InfoState) : Prop := ∀ key, key ∈ s.company.info ↔ key ∈ s.stored

/-- A homepage scrape replaces keys that are not of a profile, or an enrichment finds keys but not
those of a profile. -/
def Loses (s : InfoState) (a : InfoAction) : Prop :=
  a.Succeeds s.company ∧ match a with
    | .scrapeCompany _ _ => ∃ key ∈ s.company.info.keys, key ∉ profileKeys
    | .processCompany _ _ => False
    | .enrichCompany _ _ _ => s.company.noInfo = false ∧ ∃ key ∈ profileKeys, key ∉ s.company.info

instance (s : InfoState) : DecidablePred (Loses s)
  | .scrapeCompany _ _ => inferInstanceAs (Decidable (_ ∧ _))
  | .processCompany _ _ => inferInstanceAs (Decidable (_ ∧ False))
  | .enrichCompany _ _ _ => inferInstanceAs (Decidable (_ ∧ _ ∧ _))

/-! ## The keys after an operation -/

variable {c : InfoCompany} {key : String}

theorem not_mem_of_noInfo (h : c.noInfo = true) : key ∉ c.info := by
  have hnil : c.info.entries = [] := List.isEmpty_iff.mp h
  rw [AList.mem_keys, AList.keys, hnil]
  exact List.not_mem_nil

theorem mem_info_scrapeCompany {page : Option (List Char)} {profile : Option CompanyProfile} :
    key ∈ (scrapeCompany page profile c).info ↔
      if (InfoAction.scrapeCompany page profile).Succeeds c then key ∈ profileKeys
      else key ∈ c.info := by
  unfold scrapeCompany InfoAction.Succeeds
  by_cases hok : scrapeOk page = true
  · cases profile with
    | none => simp [hok, InfoCompany.info]
    | some p => simp [hok, InfoCompany.info, CompanyProfile.mem_modelDump]
  · simp [hok]

theorem mem_info_updateCompanyInfo {scraped : LinkedInScrapeResult} {scrapedAt : String} :
    key ∈ (updateCompanyInfo scraped scrapedAt c).info ↔
      key ∈ c.info ∨ scraped.companyData.isSome = true ∧ key = "linkedin" := by
  unfold updateCompanyInfo
  cases scraped.companyData with
  | none => simp
  | some cd =>
    show key ∈ c.info.insert _ _ ↔ _
    rw [AList.mem_insert]
    simp [or_comm]

theorem mem_info_storeRawLinkedinData {scraped : LinkedInScrapeResult} :
    key ∈ (storeRawLinkedinData scraped c).info ↔ key ∈ c.info ∨ key = "linkedin_raw_items" := by
  show key ∈ c.info.insert _ _ ↔ _
  rw [AList.mem_insert, or_comm]

theorem mem_info_processCompany {scraped : Option LinkedInScrapeResult} {scrapedAt : String} :
    key ∈ (processCompany scraped scrapedAt c).info ↔ key ∈ c.info ∨
      (InfoAction.processCompany scraped scrapedAt).Succeeds c ∧
        key ∈ (InfoAction.processCompany scraped scrapedAt).keys := by
  unfold processCompany InfoAction.Succeeds InfoAction.keys
  by_cases hurl : c.hasLinkedin = true
  · cases scraped with
    | none => simp
    | some scraped =>
      simp only [hurl, if_true, mem_info_storeRawLinkedinData, mem_info_updateCompanyInfo]
      by_cases hdata : scraped.companyData.isSome = true
      · simp [hdata, or_assoc]
      · simp [hdata]
  · simp [hurl]

theorem mem_info_enrichCompany {llm : Bool} {pages : List CachedPage}
    {profile : Option CompanyProfile} :
    key ∈ (enrichCompany llm pages profile c).info ↔
      if c.noInfo = true ∧ (InfoAction.enrichCompany llm pages profile).Succeeds c then
        key ∈ profileKeys
      else key ∈ c.info := by
  unfold enrichCompany generateCompanyInfo InfoAction.Succeeds
  by_cases hnone : c.noInfo = true
  · by_cases hcontent : strip (getCachedContent c.domain pages) = []
    · simp [hcontent]
    · cases profile with
      | none => simp [hcontent]
      | some p =>
        cases llm with
        | false => simp
        | true => simp [hnone, hcontent, InfoCompany.info, CompanyProfile.mem_modelDump]
  · simp [hnone]

/-! ## Whole runs -/

variable {s : InfoState} {a : InfoAction}

theorem mem_stored_next :
    key ∈ (s.next a).stored ↔ key ∈ s.stored ∨ a.Succeeds s.company ∧ key ∈ a.keys := by
  show key ∈ (if a.Succeeds s.company then s.stored ++ a.keys else s.stored) ↔ _
  by_cases hok : a.Succeeds s.company
  · simp [hok]
  · simp [hok]

/-- What is stored besides a new profile are keys of profiles, unless some are lost. -/
theorem KeysKept.next (h : s.KeysKept) (hno : ¬ s.Loses a) : (s.next a).KeysKept := by
  intro key
  rw [mem_stored_next, ← h key]
  cases a with
  | scrapeCompany page profile =>
    show key ∈ (scrapeCompany page profile s.company).info ↔ _
    rw [mem_info_scrapeCompany]
    by_cases hok : (InfoAction.scrapeCompany page profile).Succeeds s.company
    · -- the scrape replaces what it finds, which is nothing but a profile
      have honly : key ∈ s.company.info → key ∈ profileKeys := by
        intro hkey
        by_contra hother
        exact hno ⟨hok, key, hkey, hother⟩
      rw [if_pos hok]
      exact ⟨fun hkey => .inr ⟨hok, hkey⟩, fun hkey => hkey.elim honly And.right⟩
    · simp [hok]
  | processCompany scraped scrapedAt => exact mem_info_processCompany
  | enrichCompany llm pages profile =>
    show key ∈ (enrichCompany llm pages profile s.company).info ↔ _
    rw [mem_info_enrichCompany]
    by_cases hok : (InfoAction.enrichCompany llm pages profile).Succeeds s.company
    · by_cases hnone : s.company.noInfo = true
      · -- the column was empty, so nothing had been stored
        simp [hok, hnone, not_mem_of_noInfo hnone, InfoAction.keys]
      · -- there is a profile already
        have hprofile : key ∈ profileKeys → key ∈ s.company.info := by
          intro hkey
          by_contra hmissing
          exact hno ⟨hok, by simpa using hnone, key, hkey, hmissing⟩
        rw [if_neg (fun hboth => hnone hboth.1)]
        exact ⟨Or.inl, fun hkey => hkey.elim id fun hboth => hprofile hboth.2⟩
    · simp [hok]

theorem not_keysKept_of_loses (h : s.KeysKept) (hloses : s.Loses a) : ¬ (s.next a).KeysKept := by
  intro hkept
  obtain ⟨hok, hloses⟩ := hloses
  cases a with
  | scrapeCompany page profile =>
    -- a key of LinkedIn, say, that had been stored and is gone
    obtain ⟨key, hkey, hother⟩ := hloses
    have hstored : key ∈ (s.next (.scrapeCompany page profile)).stored :=
      mem_stored_next.mpr (.inl ((h key).mp hkey))
    have hgone := mem_info_scrapeCompany.mp ((hkept key).mpr hstored)
    rw [if_pos hok] at hgone
    exact hother hgone
  | processCompany scraped scrapedAt => exact hloses
  | enrichCompany llm pages profile =>
    -- a key of the profile that is not generated
    obtain ⟨hsome, key, hkey, hmissing⟩ := hloses
    have hstored : key ∈ (s.next (.enrichCompany llm pages profile)).stored :=
      mem_stored_next.mpr (.inr ⟨hok, hkey⟩)
    have hfound := mem_info_enrichCompany.mp ((hkept key).mpr hstored)
    rw [if_neg (fun hboth => by simp [hsome] at hboth)] at hfound
    exact hmissing hfound

/-- What successes were to leave behind does not depend on their order. -/
theorem mem_stored_exec {as : List InfoAction}
    (hok : Run.AllSteps step (fun s a => a.Succeeds s.company) s as) {s' : InfoState}
    (hs : Run.exec step s as = some s') :
    key ∈ s'.stored ↔ key ∈ s.stored ∨ ∃ a ∈ as, key ∈ a.keys := by
  induction as generalizing s with
  | nil =>
    obtain rfl : s = s' := by simpa using hs
    simp
  | cons a as ih =>
    obtain ⟨hfirst, hrest⟩ := hok (s.next a) rfl
    rw [ih hrest hs, mem_stored_next]
    simp [hfirst, or_assoc]

theorem keysKept_start (domain : List Char) (linkedinUrl : Option (List Char)) :
    (start domain linkedinUrl).KeysKept := by
  intro key
  show key ∈ (∅ : JsonObject) ↔ key ∈ []
  simp

/-- All keys are kept in a run of scrapes and enrichments, in every state, exactly if no homepage
scrape replaces other keys and no enrichment finds such keys only. If they are, then two orders of
successes lead to the same keys. -/
theorem keysKept_iff (domain : List Char) (linkedinUrl : Option (List Char))
    (as : List InfoAction) :
    (Run.AllStates step KeysKept (start domain linkedinUrl) as ↔
      Run.AllSteps step (fun s a => ¬ s.Loses a) (start domain linkedinUrl) as) ∧
    ∀ bs : List InfoAction, as.Perm bs → (∀ cs ∈ [as, bs],
      Run.AllStates step KeysKept (start domain linkedinUrl) cs ∧
        Run.AllSteps step (fun s a => a.Succeeds s.company) (start domain linkedinUrl) cs) →
      ∀ s t, Run.exec step (start domain linkedinUrl) as = some s →
        Run.exec step (start domain linkedinUrl) bs = some t →
        ∀ key, key ∈ s.company.info ↔ key ∈ t.company.info := by
  constructor
  · refine Run.allStates_iff_allSteps (fun _ h => h) ?_ ?_ (keysKept_start domain linkedinUrl) as
    · intro s a s' h hno hs
      obtain rfl := Option.some.inj hs
      exact KeysKept.next h hno
    · intro s a s' h hloses hs
      obtain rfl := Option.some.inj hs
      exact not_keysKept_of_loses h (not_not.mp hloses)
  · intro bs hperm hruns s t hs ht key
    -- in both orders the keys are those that some operation was to leave behind
    obtain ⟨hkept, hok⟩ := hruns as (by simp)
    obtain ⟨hkept', hok'⟩ := hruns bs (by simp)
    have hfrom := (hkept.exec hs key).trans (mem_stored_exec hok hs)
    have hto := (hkept'.exec ht key).trans (mem_stored_exec hok' ht)
    rw [hfrom, hto]
    simp only [hperm.mem_iff]

/-- LinkedIn is scraped, and then the homepage. -/
theorem linkedin_lost : ¬ Run.AllStates step KeysKept
    (start "acme.nl".toList (some "https://www.linkedin.com/company/acme".toList))
    [.processCompany (some { companyData := some { name := some "Acme" } }) "2025-01-01",
      .scrapeCompany (some (List.replicate 50 'a')) (some { summary := "Acme" })] :=
  Run.not_allStates (q := fun s => "linkedin" ∈ s.stored ∧ "linkedin" ∉ s.company.info)
    (fun s hs => by simp [hs "linkedin"])
    (by decide +kernel)

end InfoState
end Enrichment
end LeadPulse
