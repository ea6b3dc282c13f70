import LeadPulse.Lib.Run
import LeadPulse.Models
import LeadPulse.Domain.Validate

/-!
# The writers of `Company.domain`

`create_company`, `update_company` and `import_companies` of `api/v1/companies.py` and
`DiscoveryService._process_bedrijfsdata_results`, as functions on the table of companies.

The loops over spreadsheet rows and over Bedrijfsdata records are runs of a step function,
one row or record a step. What the outside decides is part of the row or record: whether
the other columns of a company fit into the database, and whether the time is up.
-/

namespace LeadPulse
namespace Domain

open PyStr

/-! ## The table -/

/-- The unique index on `(name, domain)`. -/
def taken (companies : List Company) (name domain : List Char) : Prop :=
  ∃ c ∈ companies, c.name = name ∧ c.domain = domain

instance (companies : List Company) (name domain : List Char) :
    Decidable (taken companies name domain) :=
  decidable_of_iff (companies.any (fun c => c.name = name ∧ c.domain = domain) = true) <| by
    simp [taken]

/-- A flush of a new company: it fails if a column does not fit or the index objects. -/
def insertCompany (companies : List Company) (name domain : List Char) (status : CompanyStatus)
    (othersFit : Bool) : Option (List Company) :=
  if othersFit ∧ name.length ≤ 255 ∧ domain.length ≤ 255 ∧ ¬ taken companies name domain then
    some (companies ++ [{ id := companies.length, name := name, domain := domain,
                          status := status }])
  else none

/-- The `(name, domain)` pairs of the companies that are not archived. -/
def existingPairs (companies : List Company) : List (List Char × List Char) :=
  (companies.filter fun c => c.status ≠ .archived ∧ c.domain ≠ []).map fun c => (c.name, c.domain)

/-! ## `create_company` and `update_company` -/

/-- An answer of the API that is not 2xx. -/
inductive HttpError where
  /-- The body does not fit its schema. -/
  | invalidBody
  | http (statusCode : ℕ) (detail : String)
  /-- An exception that no handler catches. -/
  | unhandled
deriving DecidableEq, Repr

structure CompanyCreate where
  name : List Char
  domain : List Char
  status : CompanyStatus := .discovered
  othersFit : Bool := true
deriving DecidableEq, Repr

/-- A field of a `CompanyUpdate` is unset, set to null, or set to a value. -/
structure CompanyUpdate where
  name : Option (Option (List Char)) := none
  domain : Option (Option (List Char)) := none
  status : Option (Option CompanyStatus) := none
  othersFit : Bool := true
deriving DecidableEq, Repr

/-- `min_length=1, max_length=255`. -/
def fieldFits (s : List Char) : Prop := 1 ≤ s.length ∧ s.length ≤ 255

instance (s : List Char) : Decidable (fieldFits s) :=
  inferInstanceAs (Decidable (1 ≤ s.length ∧ s.length ≤ 255))

/-- Validation, then the normal form: 422 for a domain that is turned down. -/
def checkedDomain (U : Unicode) (raw : List Char) : Except HttpError (List Char) :=
  match validatePublicDomain U raw, normalizeDomain U raw with
  | .ok (some domainError), _ => .error (.http 422 domainError.message)
  | .ok none, .ok normalized => .ok normalized
  | _, _ => .error .unhandled

def createCompany (U : Unicode) (companies : List Company) (body : CompanyCreate) :
    Except HttpError (List Company) :=
  if ¬ (fieldFits body.name ∧ fieldFits body.domain) then .error .invalidBody
  else match checkedDomain U body.domain with
  | .error e => .error e
  | .ok normalized =>
    if taken companies body.name normalized then
      .error (.http 409 "A company with this name and domain already exists")
    else match insertCompany companies body.name normalized body.status body.othersFit with
    | some companies => .ok companies
    | none => .error .unhandled

/-- The domain of a company after an update; validating a null raises an `AttributeError`. -/
def updatedDomain (U : Unicode) (company : Company) (body : CompanyUpdate) :
    Except HttpError (List Char) :=
  match body.domain with
  | none => .ok company.domain
  | some none => .error .unhandled
  | some (some raw) => checkedDomain U raw

/-- A null for the name or the status comes back from the database as a conflict. -/
def updateCompany (U : Unicode) (companies : List Company) (companyId : ℕ)
    (body : CompanyUpdate) : Except HttpError (List Company) :=
  if ¬ ((∀ s ∈ body.name.join, fieldFits s) ∧ ∀ s ∈ body.domain.join, fieldFits s) then
    .error .invalidBody
  else match companies.find? (·.id = companyId) with
  | none => .error (.http 404 "Company not found")
  | some company =>
    if company.status = .archived then .error (.http 404 "Company not found")
    else match updatedDomain U company body, body.name.getD (some company.name),
        body.status.getD (some company.status) with
    | .error e, _, _ => .error e
    | .ok domain, some name, some status =>
      -- an update that changes neither is not checked against the index
      if (name ≠ company.name ∨ domain ≠ company.domain) ∧
          taken (companies.filter (·.id ≠ companyId)) name domain then
        .error (.http 409 "A company with this name and domain already exists")
      else if ¬ (body.othersFit ∧ domain.length ≤ 255) then .error .unhandled
      else .ok (companies.map fun c =>
        if c.id = companyId then { c with name := name, domain := domain, status := status }
        else c)
    | .ok _, _, _ => .error (.http 409 "A company with this domain already exists")

/-! ## `import_companies` -/

/-- A data row: the texts of its cells, and whether the columns that are not modelled fit.
The number `3.0` has the text `3`. -/
structure ImportRow where
  cells : List (Option (List Char))
  othersFit : Bool := true
deriving DecidableEq, Repr

inductive ImportError where
  | required
  | domain (error : DomainError)
  | exception
deriving DecidableEq, Repr

/-- The text of an error; `exc` is that of the exception. -/
def ImportError.text (exc : String) : ImportError → String
  | required => "Name and domain are required"
  | domain error => error.message
  | exception => exc

/-- `_cell_str`, with `[]` for `None`; `colMap` is the header of the sheet. -/
def cellStr (colMap : List (String × ℕ)) (row : ImportRow) (key : String) : List Char :=
  match (colMap.lookup key).bind fun idx => row.cells[idx]? with
  | some (some text) => strip text
  | _ => []

/-- The domain column, or else the website column. -/
def rowDomain (colMap : List (String × ℕ)) (row : ImportRow) : List Char :=
  if cellStr colMap row "domain" = [] then cellStr colMap row "website_url"
  else cellStr colMap row "domain"

/-- The variables of the row loop. -/
structure ImportState where
  companies : List Company
  pairs : List (List Char × List Char)
  rowIdx : ℕ := 2
  imported : ℕ := 0
  skipped : ℕ := 0
  errors : List (ℕ × ImportError) := []
deriving DecidableEq, Repr

def ImportState.fail (s : ImportState) (error : ImportError) : ImportState :=
  { s with rowIdx := s.rowIdx + 1, errors := s.errors ++ [(s.rowIdx, error)] }

/-- The body of the row loop. -/
def importRow (U : Unicode) (colMap : List (String × ℕ)) (s : ImportState) (row : ImportRow) :
    ImportState :=
  let name := cellStr colMap row "name"
  let domainRaw := rowDomain colMap row
  if name = [] ∨ domainRaw = [] then s.fail .required
  else match validatePublicDomain U domainRaw, normalizeDomain U domainRaw with
  | .ok (some domainError), _ => s.fail (.domain domainError)
  | .ok none, .ok normalized =>
    if (name, normalized) ∈ s.pairs then
      { s with rowIdx := s.rowIdx + 1, skipped := s.skipped + 1 }
    else match insertCompany s.companies name normalized .discovered row.othersFit with
    | some companies =>
      { s with companies := companies, rowIdx := s.rowIdx + 1, imported := s.imported + 1,
               pairs := s.pairs ++ [(name, normalized)] }
    | none => s.fail .exception
  | _, _ => s.fail .exception

/-- At most 500 rows are read. -/
def importCompanies (U : Unicode) (companies : List Company) (colMap : List (String × ℕ))
    (rows : List ImportRow) : ImportState :=
  (rows.take 500).foldl (importRow U colMap)
    { companies := companies, pairs := existingPairs companies }

/-! ## Discovery -/

/-- A record of Bedrijfsdata, whether its other columns fit, and whether the run has
timed out when its turn comes. -/
structure BedrijfsdataCompany where
  name : List Char
  domain : Option (List Char)
  othersFit : Bool := true
  timedOut : Bool := false
deriving DecidableEq, Repr

/-- What the matching of names and the cap of a run are. `similar a b` says that
`company_name_similarity` is at least the threshold. -/
structure DiscoveryConfig where
  similar : List Char → List Char → Bool
  maxCompanies : ℕ

/-- The variables of the record loop; `stopped` says that it has been left. -/
structure DiscoveryState where
  companies : List Company
  pairs : List (List Char × List Char)
  names : List (List Char)
  added : ℕ := 0
  skipped : ℕ := 0
  found : ℕ := 0
  errors : List String := []
  stopped : Bool := false
deriving DecidableEq, Repr

def capReached (cfg : DiscoveryConfig) (s : DiscoveryState) : Prop :=
  0 < cfg.maxCompanies ∧ cfg.maxCompanies ≤ s.added

/-- `_is_duplicate`, for the normal form of a domain. -/
def isDuplicate (cfg : DiscoveryConfig) (s : DiscoveryState) (name normalized : List Char) :
    Prop :=
  (name, normalized) ∈ s.pairs ∨ ∃ existing ∈ s.names, cfg.similar name existing = true

instance (cfg : DiscoveryConfig) (s : DiscoveryState) : Decidable (capReached cfg s) :=
  inferInstanceAs (Decidable (_ ∧ _))

instance (cfg : DiscoveryConfig) (s : DiscoveryState) (name normalized : List Char) :
    Decidable (isDuplicate cfg s name normalized) :=
  decidable_of_iff ((name, normalized) ∈ s.pairs ∨ s.names.any (cfg.similar name ·) = true) <| by
    simp [isDuplicate]

/-- The body of the record loop; `none` is the `ValueError` of `normalize_domain`, which leaves the
loop at the state before the record. -/
def processRecord (U : Unicode) (cfg : DiscoveryConfig) (s : DiscoveryState)
    (bd : BedrijfsdataCompany) : Option DiscoveryState :=
  if s.stopped then some s
  else if bd.timedOut then
    some { s with stopped := true,
                  errors := s.errors ++ ["Runtime limit reached during Bedrijfsdata processing"] }
  else if capReached cfg s then some { s with stopped := true }
  else
    let s := { s with found := s.found + 1 }
    match bd.domain with
    | none | some [] => some { s with skipped := s.skipped + 1 }
    | some domain =>
      match normalizeDomain U domain with
      | .error _ => none
      | .ok normalized =>
        -- the other writers ask `validatePublicDomain` at this point
        if isDuplicate cfg s bd.name normalized then some { s with skipped := s.skipped + 1 }
        else match insertCompany s.companies bd.name normalized .discovered bd.othersFit with
        | some companies => some { s with companies := companies, added := s.added + 1,
                                          pairs := s.pairs ++ [(bd.name, normalized)],
                                          names := s.names ++ [bd.name] }
        | none => some { s with skipped := s.skipped + 1 }

/-- The loop starts with the companies that are not archived. -/
def discoveryStart (companies : List Company) : DiscoveryState where
  companies := companies
  pairs := existingPairs companies
  names := (companies.filter fun c => c.status ≠ .archived).map (·.name)

/-- The table after `_process_bedrijfsdata_results`. An error leaves the loop where it stands; what
has been flushed by then is committed all the same, with the failed job in `_run_discovery`. -/
def processBedrijfsdataResults (U : Unicode) (cfg : DiscoveryConfig) (companies : List Company)
    (records : List BedrijfsdataCompany) : List Company :=
  (Run.last (processRecord U cfg) (discoveryStart companies) records).companies

/-! ## The four writers as one system -/

inductive Write where
  | create (body : CompanyCreate)
  | update (companyId : ℕ) (body : CompanyUpdate)
  | importRows (colMap : List (String × ℕ)) (rows : List ImportRow)
  | discover (cfg : DiscoveryConfig) (records : List BedrijfsdataCompany)

/-- A request that fails leaves the table as it is. -/
def write (U : Unicode) (companies : List Company) : Write → Option (List Company)
  | .create body => some ((createCompany U companies body).toOption.getD companies)
  | .update companyId body =>
    some ((updateCompany U companies companyId body).toOption.getD companies)
  | .importRows colMap rows => some (importCompanies U companies colMap rows).companies
  | .discover cfg records => some (processBedrijfsdataResults U cfg companies records)

end Domain
end LeadPulse
