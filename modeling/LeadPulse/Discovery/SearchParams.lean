import LeadPulse.Domain.UrlParse
import LeadPulse.Icp.Profile
import LeadPulse.Lib.Params
import Mathlib.Data.List.Sort
import Mathlib.Data.String.Basic

/-!
# The search parameters of a discovery

`industries_to_sbi_codes`, `build_search_params` and `icp_to_search_params` of
`services/api/bedrijfsdata.py`, which turn the filters of the active profile into the parameters
of a request. `SearchQuery` is what these parameters are to mean, by the docstring: "Range filters
use colon syntax (min:max), multi-value filters are comma-separated"; `readQuery` reads them so.

By `icpQuery_iff` the request asks for what the profile says, exactly if no city, region or
technology has a comma in it and the revenue bounds, which may have a fraction, are whole. The excluded industries and domains, the countries and the
industries without a code are not part of the request at all (`unrestricted_iff`).
-/

namespace LeadPulse
namespace Discovery

open Params PyNum

/-! ## Industries -/

/-- `SBI_CODE_MAP` -/
def sbiCodeMap : List (String × List String) :=
  [("saas", ["6201", "6202", "6209"]), ("software", ["6201", "6202", "6209"]),
    ("it", ["6201", "6202", "6209", "6311", "6312"]), ("it services", ["6202", "6209"]),
    ("cloud", ["6311", "6202"]), ("cybersecurity", ["6209"]),
    ("fintech", ["6201", "6419", "6499"]),
    ("financial services", ["6411", "6419", "6491", "6492", "6499"]),
    ("banking", ["6411", "6419"]), ("insurance", ["6511", "6512"]),
    ("healthtech", ["6201", "8610"]), ("healthcare", ["8610", "8621", "8622", "8623"]),
    ("biotech", ["7211", "7219"]), ("pharma", ["2110", "2120"]),
    ("manufacturing", ["1011", "2410", "2511", "2599", "2811", "2899"]),
    ("logistics", ["4941", "5210", "5229"]), ("transport", ["4941", "4942", "5010", "5110"]),
    ("retail", ["4711", "4719", "4791"]), ("e-commerce", ["4791"]),
    ("wholesale", ["4619", "4690"]), ("construction", ["4110", "4120", "4211", "4299"]),
    ("real estate", ["6810", "6820"]), ("consulting", ["7022"]),
    ("management consulting", ["7022"]), ("marketing", ["7311", "7312"]),
    ("advertising", ["7311"]), ("media", ["5811", "5813", "5814", "6010", "6020"]),
    ("telecommunications", ["6110", "6120", "6130"]),
    ("energy", ["3511", "3512", "3513", "3514"]), ("renewable energy", ["3511", "3514"]),
    ("food", ["1011", "1012", "1013", "1020", "1039"]),
    ("agriculture", ["0111", "0113", "0119", "0150"]),
    ("education", ["8510", "8520", "8530", "8541", "8542"]), ("edtech", ["6201", "8542"]),
    ("legal", ["6910"]), ("accounting", ["6920"]), ("hr", ["7810", "7820", "7830"]),
    ("recruitment", ["7810", "7820"]), ("automotive", ["2910", "2920", "4511", "4519"]),
    ("aerospace", ["3030"]), ("gaming", ["5821"]), ("travel", ["7911", "7912"]),
    ("hospitality", ["5510", "5520", "5590"])]

variable (U : Unicode)

/-- `SBI_CODE_MAP` at `industry.lower().strip()`; unknown industries have no codes. -/
def sbiCodesOf (industry : String) : List String :=
  (sbiCodeMap.lookup (String.ofList (PyStr.strip (U.lower industry.toList)))).getD []

/-- `industries_to_sbi_codes` -/
def industriesToSbiCodes (industries : List String) : List String :=
  ((industries.flatMap (sbiCodesOf U)).dedup).mergeSort (· ≤ ·)

/-! ## The parameters -/

/-- The arguments of `build_search_params`. `None` and an empty list or text are the same to it. -/
structure SearchFilters where
  sbi : List String := []
  employeesMin : Option ℤ := none
  employeesMax : Option ℤ := none
  revenueMin : Option ℚ := none
  revenueMax : Option ℚ := none
  city : List String := []
  province : List String := []
  apps : List String := []
  text : String := ""
  orgtype : String := ""
  dataExists : List String := []
  socialExists : List String := []
  foundedMin : Option ℤ := none
  foundedMax : Option ℤ := none
  rows : ℤ := 25
  page : ℤ := 1
deriving DecidableEq

/-- `int(revenue)` drops the fraction. -/
def truncate (x : ℚ) : ℤ := x.num.tdiv x.den

/-- `build_search_params` -/
def buildSearchParams (f : SearchFilters) : QueryParams :=
  listParam "sbi" f.sbi ++
  rangeParam "employees" f.employeesMin f.employeesMax ++
  rangeParam "revenue" (f.revenueMin.map truncate) (f.revenueMax.map truncate) ++
  listParam "city" f.city ++
  listParam "province" f.province ++
  listParam "apps" f.apps ++
  textParam "text" f.text ++
  textParam "orgtype" f.orgtype ++
  listParam "data_exists" f.dataExists ++
  listParam "social_exists" f.socialExists ++
  rangeParam "founded" f.foundedMin f.foundedMax ++
  intParam "rows" f.rows ++
  intParam "page" f.page

/-- The arguments that `icp_to_search_params` passes on. -/
def icpFilters (p : ICPProfile) (rows page : ℤ) : SearchFilters where
  sbi := industriesToSbiCodes U (p.industryFilter.getD [])
  employeesMin := p.sizeFilter.bind SizeFilter.minEmployees
  employeesMax := p.sizeFilter.bind SizeFilter.maxEmployees
  revenueMin := p.sizeFilter.bind SizeFilter.minRevenue
  revenueMax := p.sizeFilter.bind SizeFilter.maxRevenue
  city := (p.geoFilter.map GeoFilter.cities).getD []
  province := (p.geoFilter.map GeoFilter.regions).getD []
  apps := p.techFilter.getD []
  rows := rows
  page := page

/-- `icp_to_search_params` -/
def icpToSearchParams (p : ICPProfile) (rows page : ℤ) : QueryParams :=
  buildSearchParams (icpFilters U p rows page)

/-! ## What the parameters mean -/

/-- A search; an empty list, an open end or an empty text restricts nothing. -/
structure SearchQuery where
  sbi : List String
  employees : Option ℤ × Option ℤ
  revenue : Option ℚ × Option ℚ
  city : List String
  province : List String
  apps : List String
  text : String
  orgtype : String
  dataExists : List String
  socialExists : List String
  founded : Option ℤ × Option ℤ
  rows : ℤ
  page : ℤ
deriving DecidableEq

/-- The search that the filters ask for. -/
def SearchFilters.query (f : SearchFilters) : SearchQuery where
  sbi := f.sbi
  employees := (f.employeesMin, f.employeesMax)
  revenue := (f.revenueMin, f.revenueMax)
  city := f.city
  province := f.province
  apps := f.apps
  text := f.text
  orgtype := f.orgtype
  dataExists := f.dataExists
  socialExists := f.socialExists
  founded := (f.foundedMin, f.foundedMax)
  rows := f.rows
  page := f.page

/-- Bounds that were read as whole numbers. -/
def amounts (bounds : Option ℤ × Option ℤ) : Option ℚ × Option ℚ :=
  (bounds.1.map (↑), bounds.2.map (↑))

/-- The search that the parameters stand for. -/
def readQuery (params : QueryParams) : Option SearchQuery := do
  let employees ← readRange (params.lookup "employees")
  let revenue ← readRange (params.lookup "revenue")
  let founded ← readRange (params.lookup "founded")
  let rows ← (params.lookup "rows").bind int
  let page ← (params.lookup "page").bind int
  return {
    sbi := readList (params.lookup "sbi")
    employees := employees
    revenue := amounts revenue
    city := readList (params.lookup "city")
    province := readList (params.lookup "province")
    apps := readList (params.lookup "apps")
    text := readText (params.lookup "text")
    orgtype := readText (params.lookup "orgtype")
    dataExists := readList (params.lookup "data_exists")
    socialExists := readList (params.lookup "social_exists")
    founded := founded
    rows := rows
    page := page }

/-! ## Reading back -/

/-- What is read of the parameters: the filters, with every list as it comes back and the revenue
without its fraction. -/
theorem readQuery_buildSearchParams (f : SearchFilters) :
    readQuery (buildSearchParams f) = some { f.query with
      sbi := reread f.sbi
      revenue := amounts (f.revenueMin.map truncate, f.revenueMax.map truncate)
      city := reread f.city
      province := reread f.province
      apps := reread f.apps
      dataExists := reread f.dataExists
      socialExists := reread f.socialExists } := by
  simp only [readQuery, buildSearchParams, List.lookup_append, lookup_listParam_self,
    lookup_listParam_ne, lookup_rangeParam_self, lookup_rangeParam_ne, lookup_textParam_self,
    lookup_textParam_ne, lookup_intParam_self, lookup_intParam_ne, ne_eq, String.reduceEq,
    not_false_eq_true, Option.or_none, Option.none_or, readRange_rangeValue, readText_textValue,
    Option.bind_some, int_str]
  rfl

/-- The lists of the filters. -/
def SearchFilters.lists (f : SearchFilters) : List (List String) :=
  [f.sbi, f.city, f.province, f.apps, f.dataExists, f.socialExists]

theorem truncate_eq_iff {x : ℚ} : (truncate x : ℚ) = x ↔ x.isInt = true := by
  rw [Rat.isInt, beq_iff_eq]
  constructor
  · intro h
    rw [← h]
    exact Rat.den_intCast _
  · intro h
    have hnum : truncate x = x.num := by
      unfold truncate
      rw [h]
      exact Int.tdiv_one _
    rw [hnum]
    exact Rat.coe_int_num_of_den_eq_one h

/-- A bound comes back, exactly if it is whole. -/
theorem map_truncate_eq_iff {bound : Option ℚ} :
    (bound.map truncate).map ((↑) : ℤ → ℚ) = bound ↔ ∀ x ∈ bound, x.isInt = true := by
  cases bound with
  | none => simp
  | some x => simp [truncate_eq_iff]

theorem readQuery_eq_iff (f : SearchFilters) :
    readQuery (buildSearchParams f) = some f.query ↔
      (∀ values ∈ f.lists, ∀ v ∈ values, ',' ∉ v.toList) ∧
        (∀ x ∈ f.revenueMin, x.isInt = true) ∧ ∀ x ∈ f.revenueMax, x.isInt = true := by
  rw [readQuery_buildSearchParams, Option.some.injEq]
  have hlists : (∀ values ∈ f.lists, ∀ v ∈ values, ',' ∉ v.toList) ↔
      ∀ values ∈ f.lists, reread values = values :=
    forall₂_congr fun values _ => reread_eq_iff.symm
  rw [hlists, ← map_truncate_eq_iff, ← map_truncate_eq_iff]
  simp only [SearchFilters.lists, SearchFilters.query, SearchQuery.mk.injEq, amounts,
    Prod.mk.injEq, List.mem_cons, List.not_mem_nil, or_false, forall_eq_or_imp, forall_eq,
    true_and, and_true]
  tauto

/-! ## Profiles -/

section
variable {U} {industries : List String} {code industry : String} {p : ICPProfile} {rows page : ℤ}

theorem mem_industriesToSbiCodes :
    code ∈ industriesToSbiCodes U industries ↔ ∃ i ∈ industries, code ∈ sbiCodesOf U i := by
  unfold industriesToSbiCodes
  rw [List.mem_mergeSort, List.mem_dedup, List.mem_flatMap]

theorem sbiCodeMap_digits : ∀ entry ∈ sbiCodeMap, ∀ code ∈ entry.2,
    code.toList.all Char.isDigit = true := by
  decide +kernel

/-- A code is made of digits. -/
theorem isDigit_of_mem_code (h : code ∈ industriesToSbiCodes U industries) {c : Char}
    (hc : c ∈ code.toList) : c.isDigit = true := by
  obtain ⟨industry, -, hcode⟩ := mem_industriesToSbiCodes.mp h
  unfold sbiCodesOf at hcode
  cases hcodes : sbiCodeMap.lookup (String.ofList (PyStr.strip (U.lower industry.toList))) with
  | none => simp [hcodes] at hcode
  | some codes =>
    rw [hcodes, Option.getD_some] at hcode
    obtain ⟨before, after, hsplit, -⟩ := List.lookup_eq_some_iff.mp hcodes
    have hentry : ∃ name, (name, codes) ∈ sbiCodeMap := by
      rw [hsplit]
      exact ⟨_, List.mem_append_right _ List.mem_cons_self⟩
    obtain ⟨name, hentry⟩ := hentry
    exact List.all_eq_true.mp (sbiCodeMap_digits _ hentry code hcode) c hc

theorem comma_not_mem_code (h : code ∈ industriesToSbiCodes U industries) :
    ',' ∉ code.toList := fun hc => absurd (isDigit_of_mem_code h hc) (by decide)

end

/-- The filters without a value. -/
theorem buildSearchParams_eq_iff (f : SearchFilters) :
    buildSearchParams f = intParam "rows" f.rows ++ intParam "page" f.page ↔
      f.sbi = [] ∧ (f.employeesMin = none ∧ f.employeesMax = none) ∧
        (f.revenueMin = none ∧ f.revenueMax = none) ∧ f.city = [] ∧ f.province = [] ∧
        f.apps = [] ∧ f.text = "" ∧ f.orgtype = "" ∧ f.dataExists = [] ∧ f.socialExists = [] ∧
        f.foundedMin = none ∧ f.foundedMax = none := by
  unfold buildSearchParams
  rw [List.append_assoc _ (intParam "rows" f.rows), List.append_left_eq_self]
  simp only [List.append_eq_nil_iff, listParam_eq_nil_iff, rangeParam_eq_nil_iff,
    textParam_eq_nil_iff, Option.map_eq_none_iff, and_assoc]

theorem industriesToSbiCodes_eq_nil_iff {industries : List String} :
    industriesToSbiCodes U industries = [] ↔ ∀ i ∈ industries, sbiCodesOf U i = [] := by
  rw [List.eq_nil_iff_forall_not_mem]
  simp only [mem_industriesToSbiCodes, not_exists, not_and, List.eq_nil_iff_forall_not_mem]
  exact ⟨fun h i hi code hcode => h code i hi hcode, fun h code i hi hcode => h i hi code hcode⟩

/-- The request has no filter, exactly if the profile has none but countries, exclusions and
industries without a code. -/
theorem unrestricted_iff (p : ICPProfile) (rows page : ℤ) :
    icpToSearchParams U p rows page = intParam "rows" rows ++ intParam "page" page ↔
      (∀ industry ∈ p.industryFilter.getD [], sbiCodesOf U industry = []) ∧
        hasSize p.sizeFilter = false ∧
        (∀ geo ∈ p.geoFilter, geo.cities = [] ∧ geo.regions = []) ∧
        hasList p.techFilter = false := by
  have hsize : hasSize p.sizeFilter = false ↔
      ((p.sizeFilter.bind SizeFilter.minEmployees = none ∧
        p.sizeFilter.bind SizeFilter.maxEmployees = none) ∧
      (p.sizeFilter.bind SizeFilter.minRevenue = none ∧
        p.sizeFilter.bind SizeFilter.maxRevenue = none)) := by
    cases p.sizeFilter <;> simp [hasSize, and_assoc]
  have hgeo : (∀ geo ∈ p.geoFilter, geo.cities = [] ∧ geo.regions = []) ↔
      (p.geoFilter.map GeoFilter.cities).getD [] = [] ∧
        (p.geoFilter.map GeoFilter.regions).getD [] = [] := by
    cases p.geoFilter <;> simp
  have htech : hasList p.techFilter = false ↔ p.techFilter.getD [] = [] := by
    cases p.techFilter <;> simp [hasList]
  rw [hsize, hgeo, htech, ← industriesToSbiCodes_eq_nil_iff]
  refine (buildSearchParams_eq_iff (icpFilters U p rows page)).trans ?_
  simp only [icpFilters, and_true, and_assoc]

end Discovery
end LeadPulse
