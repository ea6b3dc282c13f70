import LeadPulse.Database
import LeadPulse.Domain.Validate
import LeadPulse.Lib.Buckets
import Mathlib.Data.List.Sort

/-!
# Looking for duplicates

`find_similar_companies` and `scan_duplicates` (`services/deduplication.py`). The token-sort
ratio is rapidfuzz's: any symmetric function. `normalize_domain` raises for some domains, and
so do both functions then.
-/

namespace LeadPulse
namespace Dedup

open Domain PyStr

/-- `fuzz.token_sort_ratio`. -/
structure TokenSortRatio where
  ratio : List Char → List Char → ℚ
  symm : ∀ a b, ratio a b = ratio b a

def nameSimilarityThreshold : ℚ := 85

/-- `company_name_similarity`. -/
def companyNameSimilarity (U : Unicode) (R : TokenSortRatio) (nameA nameB : List Char) : ℚ :=
  R.ratio (strip (U.lower nameA)) (strip (U.lower nameB))

/-- `round(x, 1)`: a tie goes to the even digit. -/
def roundTenth (x : ℚ) : ℚ :=
  let n := (10 * x).floor
  let rest := 10 * x - n
  (if rest < 1 / 2 ∨ (rest = 1 / 2 ∧ n % 2 = 0) then n else n + 1) / 10

section

variable (U : Unicode) (R : TokenSortRatio)

/-! ## `find_similar_companies` -/

structure SimilarCompanyMatch where
  companyId : ℕ
  name : List Char
  domain : List Char
  domainMatch : Bool
  nameSimilarity : ℚ
deriving DecidableEq, Repr

/-- The match for a company whose domain has the normal form `norm`, if it is reported. -/
def similarMatch (name normalized norm : List Char) (company : Company) :
    Option SimilarCompanyMatch :=
  let sim := companyNameSimilarity U R name company.name
  if norm = normalized ∨ nameSimilarityThreshold ≤ sim then
    some { companyId := company.id, name := company.name, domain := company.domain,
           domainMatch := norm = normalized, nameSimilarity := roundTenth sim }
  else none

/-- Domain matches first, then by falling similarity. -/
def SimilarCompanyMatch.before (m m' : SimilarCompanyMatch) : Bool :=
  if m.domainMatch = m'.domainMatch then m'.nameSimilarity ≤ m.nameSimilarity else m.domainMatch

def nonArchived (companies : List Company) : List Company :=
  companies.filter fun c => c.status ≠ .archived

def findSimilarCompanies (order : RowOrder Company) (db : Database) (name domain : List Char) :
    Except ValueError (List SimilarCompanyMatch) := do
  let normalized ← normalizeDomain U domain
  let matches? ← (order.arrange (nonArchived db.tables.companies)).mapM fun company => do
    let norm ← normalizeDomain U company.domain
    return similarMatch U R name normalized norm company
  return matches?.reduceOption.insertionSort fun m m' => m.before m'

/-! ## `scan_duplicates` -/

structure DuplicateGroupMember where
  companyId : ℕ
  name : List Char
  domain : List Char
  domainMatch : Option Bool := none
  nameSimilarity : Option ℚ := none
deriving DecidableEq, Repr

abbrev DuplicateGroup := List DuplicateGroupMember

def anchorMember (company : Company) : DuplicateGroupMember :=
  { companyId := company.id, name := company.name, domain := company.domain }

/-- A member that is compared to the anchor of its group. -/
def otherMember (domainMatch : Bool) (anchor other : Company) : DuplicateGroupMember :=
  { companyId := other.id, name := other.name, domain := other.domain,
    domainMatch := some domainMatch,
    nameSimilarity := some (roundTenth (companyNameSimilarity U R anchor.name other.name)) }

def duplicateGroup (domainMatch : Bool) (anchor : Company) (others : List Company) :
    DuplicateGroup :=
  anchorMember anchor :: others.map (otherMember U R domainMatch anchor)

/-- `domain_buckets`, from the buckets so far. -/
def domainBuckets : List (List Char × List Company) → List Company →
    Except ValueError (List (List Char × List Company))
  | buckets, [] => .ok buckets
  | buckets, company :: companies => do
    let norm ← normalizeDomain U company.domain
    domainBuckets (Buckets.put norm company buckets) companies

/-- Phase 1: the set `grouped` and the groups. -/
def groupByDomain : List (List Char × List Company) → List ℕ × List DuplicateGroup
  | [] => ([], [])
  | (_, anchor :: other :: others) :: buckets =>
    let (grouped, groups) := groupByDomain buckets
    ((anchor :: other :: others).map (·.id) ++ grouped,
      duplicateGroup U R true anchor (other :: others) :: groups)
  | _ :: buckets => groupByDomain buckets

/-- The inner loop of phase 2: the set `grouped` after it, and the companies it has added. -/
def similarTo (companyA : Company) : List ℕ → List Company → List ℕ × List Company
  | grouped, [] => (grouped, [])
  | grouped, companyB :: rest =>
    if companyB.id ∈ grouped then similarTo companyA grouped rest
    else if nameSimilarityThreshold ≤ companyNameSimilarity U R companyA.name companyB.name then
      let (grouped, others) := similarTo companyA (companyB.id :: grouped) rest
      (grouped, companyB :: others)
    else similarTo companyA grouped rest

/-- Phase 2, on the remaining companies. -/
def groupByName : List ℕ → List Company → List DuplicateGroup
  | _, [] => []
  | grouped, companyA :: rest =>
    if companyA.id ∈ grouped then groupByName grouped rest
    else match similarTo U R companyA grouped rest with
      | (grouped, []) => groupByName grouped rest
      | (grouped, others) =>
        duplicateGroup U R false companyA others :: groupByName (companyA.id :: grouped) rest

/-- The companies in the order of their ids. -/
def scannedCompanies (db : Database) : List Company :=
  (nonArchived db.tables.companies).insertionSort fun c c' => c.id ≤ c'.id

def scanDuplicates (db : Database) : Except ValueError (List DuplicateGroup) := do
  let companies := scannedCompanies db
  let buckets ← domainBuckets U [] companies
  let (grouped, groups) := groupByDomain U R buckets
  let remaining := companies.filter fun c => c.id ∉ grouped
  return groups ++ groupByName U R grouped remaining

end

end Dedup
end LeadPulse
