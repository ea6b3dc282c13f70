import LeadPulse.Lib.Backtrack

/-!
# The LinkedIn link on a homepage

`extract_linkedin_company_url` of `utils/linkedin.py`, which the scrape of a homepage calls on the
Markdown of the page, and `is_valid_linkedin_company_url`. Their regular expression is
`https?://(?:www\.)?linkedin\.com/company/([a-zA-Z0-9_-]+)`.

By `extractLinkedinCompanyUrl_spec` the result is the first link of the page, with its whole slug,
unless that slug is a generic one; then later links are not looked at.
-/

namespace LeadPulse
namespace LinkedIn

open Backtrack

variable {markdown url slug t : List Char}

/-- `[a-zA-Z0-9_-]` -/
def isSlugChar (c : Char) : Bool := c.isAlphanum || c = '_' || c = '-'

/-- The expression in front of the group. -/
def companyLink : Matcher Char :=
  cat (lit "http".toList) (cat (opt (lit "s".toList)) (cat (lit "://".toList)
    (cat (opt (lit "www.".toList)) (lit "linkedin.com/company/".toList))))

def companySlug : Matcher Char := manyOf isSlugChar

def genericSlugs : List (List Char) :=
  ["company".toList, "companies".toList, "signup".toList, "login".toList]

def companyUrl (slug : List Char) : List Char := "https://www.linkedin.com/company/".toList ++ slug

/-- `extract_linkedin_company_url`; a slug is ASCII, and so is its lower case. -/
def extractLinkedinCompanyUrl (markdown : List Char) : Option (List Char) :=
  match search companyLink companySlug markdown with
  | none => none
  | some slug =>
    if genericSlugs.contains (slug.map Char.toLower) then none else some (companyUrl slug)

/-- `is_valid_linkedin_company_url`: `re.match` does not look at the end. -/
def isValidLinkedinCompanyUrl (url : List Char) : Bool :=
  (matchGroup companyLink companySlug url).isSome

/-! ## Links -/

/-- What the link of a company page begins with. -/
def linkStarts : List (List Char) :=
  ["https://www.linkedin.com/company/".toList, "http://www.linkedin.com/company/".toList,
    "https://linkedin.com/company/".toList, "http://linkedin.com/company/".toList]

/-- The text begins with the link of a company page, and the slug ends where it cannot go on. -/
def LinksTo (t slug : List Char) : Prop :=
  ∃ start ∈ linkStarts, ∃ after, t = start ++ (slug ++ after) ∧ slug ≠ [] ∧
    slug.all isSlugChar = true ∧ ∀ c ∈ after.head?, isSlugChar c = false

/-- The language of the expression in front of the group. -/
def linkLanguage : Language Char :=
  word "http".toList * ((word "s".toList + 1) * (word "://".toList *
    ((word "www.".toList + 1) * word "linkedin.com/company/".toList)))

theorem denotes_companyLink : Denotes companyLink linkLanguage :=
  denotes_cat (denotes_lit _) (denotes_cat (denotes_opt (denotes_lit _)) (denotes_cat
    (denotes_lit _) (denotes_cat (denotes_opt (denotes_lit _)) (denotes_lit _))))

theorem mem_linkLanguage {a : List Char} : a ∈ linkLanguage ↔ a ∈ linkStarts := by
  simp only [linkLanguage, add_mul, mul_add, one_mul, word_mul_word, Language.mem_add, mem_word,
    linkStarts, List.mem_cons, List.not_mem_nil, or_false, or_assoc]
  rfl

/-- No start of a link goes on as another one. -/
theorem linkLanguage_free : ∀ a ∈ linkLanguage, ∀ b ∈ linkLanguage, a <+: b → a = b := by
  simp only [mem_linkLanguage]
  decide

theorem matchGroup_companyLink :
    matchGroup companyLink companySlug t = some slug ↔ LinksTo t slug := by
  rw [matchGroup_eq_some_iff denotes_companyLink linkLanguage_free]
  simp only [mem_linkLanguage]
  constructor
  · rintro ⟨start, hstart, rest, rfl, hslug⟩
    obtain ⟨after, rfl, hne, hall, hend⟩ := head?_manyOf_eq_some_iff.mp hslug
    exact ⟨start, hstart, after, rfl, hne, hall, hend⟩
  · rintro ⟨start, hstart, after, rfl, hne, hall, hend⟩
    exact ⟨start, hstart, slug ++ after, rfl,
      head?_manyOf_eq_some_iff.mpr ⟨after, rfl, hne, hall, hend⟩⟩

theorem matchGroup_eq_none_iff :
    matchGroup companyLink companySlug t = none ↔ ∀ slug, ¬ LinksTo t slug := by
  rw [Option.eq_none_iff_forall_ne_some]
  exact forall_congr' fun slug => not_congr matchGroup_companyLink

/-! ## The first link -/

/-- The first link on the page has this slug. -/
def FirstLink (markdown slug : List Char) : Prop :=
  ∃ before t, markdown = before ++ t ∧ LinksTo t slug ∧
    ∀ before' t', markdown = before' ++ t' → before'.length < before.length →
      ∀ slug', ¬ LinksTo t' slug'

theorem search_companyLink :
    search companyLink companySlug markdown = some slug ↔ FirstLink markdown slug := by
  rw [search_eq_some_iff]
  simp only [matchGroup_companyLink, matchGroup_eq_none_iff]
  rfl

/-- The slug of the first link, if it is not a generic one. -/
theorem extractLinkedinCompanyUrl_eq_some_iff :
    extractLinkedinCompanyUrl markdown = some url ↔
      ∃ slug, FirstLink markdown slug ∧ slug.map Char.toLower ∉ genericSlugs ∧
        url = companyUrl slug := by
  simp only [← search_companyLink]
  unfold extractLinkedinCompanyUrl
  cases search companyLink companySlug markdown with
  | none => simp
  | some slug =>
    simp only [Option.some.injEq, exists_eq_left']
    by_cases hgeneric : slug.map Char.toLower ∈ genericSlugs
    · simp [hgeneric]
    · simp only [List.contains_iff_mem, hgeneric, if_false, Option.some.injEq,
        not_false_eq_true, true_and]
      exact eq_comm

theorem linksTo_companyUrl (hne : slug ≠ []) (hall : slug.all isSlugChar = true) :
    LinksTo (companyUrl slug) slug := by
  refine ⟨_, List.mem_cons_self, [], ?_, hne, hall, fun _ h => nomatch h⟩
  rw [List.append_nil]
  rfl

/-- What is extracted is the first link of the page with its whole slug, unless the slug is a
generic one; it is valid, and would be extracted from itself. -/
theorem extractLinkedinCompanyUrl_spec (markdown url : List Char) :
    (extractLinkedinCompanyUrl markdown = some url ↔
      ∃ slug, FirstLink markdown slug ∧ slug.map Char.toLower ∉ genericSlugs ∧
        url = companyUrl slug) ∧
    ∀ url ∈ extractLinkedinCompanyUrl markdown,
      isValidLinkedinCompanyUrl url = true ∧ extractLinkedinCompanyUrl url = some url := by
  refine ⟨extractLinkedinCompanyUrl_eq_some_iff, fun url h => ?_⟩
  obtain ⟨slug, hfirst, hgeneric, rfl⟩ := extractLinkedinCompanyUrl_eq_some_iff.mp h
  obtain ⟨before, t, -, ⟨start, -, after, -, hne, hall, -⟩, -⟩ := hfirst
  have hlinks := linksTo_companyUrl hne hall
  constructor
  · unfold isValidLinkedinCompanyUrl
    rw [matchGroup_companyLink.mpr hlinks]
    rfl
  · -- nothing comes before the beginning
    have hself : FirstLink (companyUrl slug) slug :=
      ⟨[], companyUrl slug, rfl, hlinks, fun _ _ _ hlt => absurd hlt (Nat.not_lt_zero _)⟩
    exact extractLinkedinCompanyUrl_eq_some_iff.mpr ⟨slug, hself, hgeneric, rfl⟩

/-- Behind a link to the login page the link of the company is not found. -/
example : extractLinkedinCompanyUrl
    "https://linkedin.com/company/login https://linkedin.com/company/acme-bv".toList = none := by
  decide +kernel

end LinkedIn
end LeadPulse
