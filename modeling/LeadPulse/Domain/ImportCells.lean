import LeadPulse.Domain.Writers
import LeadPulse.Lib.PyNum

/-!
# The spreadsheet import

`import_companies` (`api/v1/companies.py`) from the cells of the sheet on. `Domain.Writers` has its
row loop over cells that are texts already; here a cell is decoded by `_cell_str` and `_safe_int`,
where a float that is no number raises, and all columns of the company are built before it is
inserted. `importCells_eq_importRow` compares the two.

Whatever a row raises is caught and becomes an entry of `errors`. `importCompanies_accounted`: every
row has one outcome, the counters add up, and a row that fails might as well not be there.
-/

namespace LeadPulse
namespace Import

open Domain PyStr

/-! ## Cells -/

/-- The values of a float. -/
inductive FloatValue where
  | finite (x : ℚ)
  | infinite (negative : Bool)
  | nan
deriving DecidableEq, Repr

/-- `int(x)` cuts the fraction off; `none` for the `OverflowError` and the `ValueError`. -/
def FloatValue.int : FloatValue → Option ℤ
  | finite x => some (x.num.tdiv x.den)
  | infinite _ => none
  | nan => none

/-- `str` of a float, and `float` of a text, `none` for the `ValueError`. -/
structure FloatText where
  str : FloatValue → List Char
  float : List Char → Option FloatValue

/-- The value of a cell, with `str` of what is neither a float nor `None`. -/
inductive Cell where
  | empty
  | float (x : FloatValue)
  | other (text : List Char)
deriving DecidableEq, Repr

section

variable (F : FloatText)

/-- `str(val).strip()` for a value that is not `None`, where a float with an integer value is
written as an integer; `none` if `int(val)` raises. -/
def cellText : Cell → Option (List Char)
  | .empty => some []
  | .float x => x.int.map fun n : ℤ => strip (if x = .finite (n : ℚ) then PyNum.str n else F.str x)
  | .other text => some (strip text)

variable (colMap : List (String × ℕ)) (row : List Cell)

/-- `_cell_str`, with `[]` for `None`. -/
def cellStr (key : String) : Option (List Char) :=
  match (colMap.lookup key).bind fun idx => row[idx]? with
  | none => some []
  | some cell => cellText F cell

/-- `_safe_int`: a text that is no number gives `None`, an infinite one raises. -/
def safeInt (text : List Char) : Option (Option ℤ) :=
  if text = [] then some none
  else match F.float (strip text) with
  | none | some .nan => some none
  | some (.infinite _) => none
  | some (.finite x) => some (FloatValue.finite x).int

/-! ## A row -/

/-- The domain column, or else the website column. -/
def rowDomain : Option (List Char) := do
  let domain ← cellStr F colMap row "domain"
  if domain = [] then cellStr F colMap row "website_url" else return domain

/-- The columns that take the text of a cell as it is. -/
def textColumns : List String :=
  ["industry", "size", "kvk_number", "phone", "email", "website_url", "address", "postal_code",
   "city", "province", "country", "organization_type", "linkedin_url", "facebook_url",
   "twitter_url"]

/-- A new `Company`. -/
structure ImportedCompany where
  name : List Char
  domain : List Char
  texts : List (String × List Char)
  location : List Char
  foundedYear : Option ℤ
  employeeCount : Option ℤ
  bedrijfsdata : List (String × List Char)
deriving DecidableEq, Repr

/-- `", ".join` of city and province, or else the location column. -/
def rowLocation : Option (List Char) := do
  let city ← cellStr F colMap row "city"
  let province ← cellStr F colMap row "province"
  match [city, province].filter (· ≠ []) with
  | [] => cellStr F colMap row "location"
  | parts => return ", ".toList.intercalate parts

/-- The fields with the prefix `_bd.`; here `str(val)` is taken as it is. -/
def bedrijfsdataFields : List (String × List Char) :=
  colMap.filterMap fun (field, idx) =>
    let text : List Char := match row[idx]? with
      | some (.float x) => strip (F.str x)
      | some (.other text) => strip text
      | _ => []
    if "_bd.".toList <+: field.toList ∧ text ≠ [] then
      some (String.ofList (field.toList.drop 4), text)
    else none

def importedCompany (name normalized : List Char) : Option ImportedCompany := do
  let texts ← textColumns.mapM fun key => (cellStr F colMap row key).map (key, ·)
  let location ← rowLocation F colMap row
  let foundedYear ← (cellStr F colMap row "founded_year").bind (safeInt F)
  let employeeCount ← (cellStr F colMap row "employee_count").bind (safeInt F)
  return { name := name
           domain := normalized
           texts := texts
           location := location
           foundedYear := foundedYear
           employeeCount := employeeCount
           bedrijfsdata := bedrijfsdataFields F colMap row }

end

/-! ## The loop -/

/-- What becomes of a row. -/
inductive RowOutcome where
  | imported (companies : List Company) (name normalized : List Char)
  | skipped
  | failed (error : ImportError)
deriving DecidableEq, Repr

namespace RowOutcome

def isImported : RowOutcome → Bool
  | imported .. => true
  | _ => false

def isSkipped : RowOutcome → Bool
  | skipped => true
  | _ => false

/-- The pair that an imported row adds to `existing_pairs`. -/
def newPair : RowOutcome → Option (List Char × List Char)
  | imported _ name normalized => some (name, normalized)
  | _ => none

end RowOutcome

section

variable (U : Unicode) (F : FloatText) (fits : ImportedCompany → Bool)
  (colMap : List (String × ℕ))

/-- The body of the loop, for the rows in the table and the pairs in memory; `fits` says whether
the database takes the columns that have no check of their own. -/
def rowOutcome (companies : List Company) (pairs : List (List Char × List Char))
    (row : List Cell) : RowOutcome :=
  match cellStr F colMap row "name", rowDomain F colMap row with
  | some name, some domainRaw =>
    if name = [] ∨ domainRaw = [] then .failed .required
    else match validatePublicDomain U domainRaw, normalizeDomain U domainRaw with
    | .ok (some domainError), _ => .failed (.domain domainError)
    | .ok none, .ok normalized =>
      if pairs.contains (name, normalized) then .skipped
      else match importedCompany F colMap row name normalized with
      | none => .failed .exception
      | some company =>
        -- the nested transaction takes the insert back if the flush raises
        match insertCompany companies name normalized .discovered (fits company) with
        | some companies => .imported companies name normalized
        | none => .failed .exception
    | _, _ => .failed .exception
  | _, _ => .failed .exception

/-- The row passes the checks, with this name and this normalised domain. -/
def Checked (row : List Cell) (name normalized : List Char) : Prop :=
  cellStr F colMap row "name" = some name ∧ name ≠ [] ∧
    ∃ domainRaw, rowDomain F colMap row = some domainRaw ∧ domainRaw ≠ [] ∧
      validatePublicDomain U domainRaw = .ok none ∧ normalizeDomain U domainRaw = .ok normalized

def applyOutcome (s : ImportState) : RowOutcome → ImportState
  | .imported companies name normalized =>
    { s with companies := companies, rowIdx := s.rowIdx + 1, imported := s.imported + 1,
             pairs := s.pairs ++ [(name, normalized)] }
  | .skipped => { s with rowIdx := s.rowIdx + 1, skipped := s.skipped + 1 }
  | .failed error => s.fail error

def importCells (s : ImportState) (row : List Cell) : ImportState :=
  applyOutcome s (rowOutcome U F fits colMap s.companies s.pairs row)

/-- `rows[1:501]`. -/
def considered (rows : List (List Cell)) : List (List Cell) := rows.take 500

def importStart (companies : List Company) : ImportState :=
  { companies := companies, pairs := existingPairs companies }

def importCompanies (companies : List Company) (rows : List (List Cell)) : ImportState :=
  (considered rows).foldl (importCells U F fits colMap) (importStart companies)

/-- The outcomes of the rows, one for each. -/
def outcomes (s : ImportState) : List (List Cell) → List RowOutcome
  | [] => []
  | row :: rows =>
    rowOutcome U F fits colMap s.companies s.pairs row ::
      outcomes (importCells U F fits colMap s row) rows

end

/-- The errors among the outcomes, with the numbers of their rows. -/
def failures (rowIdx : ℕ) : List RowOutcome → List (ℕ × ImportError)
  | [] => []
  | .failed error :: os => (rowIdx, error) :: failures (rowIdx + 1) os
  | _ :: os => failures (rowIdx + 1) os

section

variable {U : Unicode} {F : FloatText} {fits : ImportedCompany → Bool}
  {colMap : List (String × ℕ)}

/-! ## Rows of texts -/

theorem strip_cellText {cell : Cell} {text : List Char} (h : cellText F cell = some text) :
    strip text = text := by
  cases cell with
  | empty =>
    cases h
    rfl
  | float x =>
    obtain ⟨n, _, rfl⟩ := Option.map_eq_some_iff.mp h
    exact strip_strip _
  | other t =>
    cases h
    exact strip_strip t

/-- The row of the texts of its cells, with the outcome of the columns beside name and domain. -/
def asRow (F : FloatText) (row : List Cell) (othersFit : Bool) : ImportRow where
  cells := row.map (cellText F)
  othersFit := othersFit

theorem cellStr_asRow {row : List Cell} {key : String} {othersFit : Bool} {text : List Char}
    (h : cellStr F colMap row key = some text) :
    Domain.cellStr colMap (asRow F row othersFit) key = text := by
  unfold cellStr at h
  unfold Domain.cellStr asRow
  cases hidx : colMap.lookup key with
  | none =>
    rw [hidx] at h
    exact Option.some.inj h
  | some idx =>
    rw [hidx, Option.bind_some] at h
    rw [Option.bind_some, List.getElem?_map]
    cases hcell : row[idx]? with
    | none =>
      rw [hcell] at h
      exact Option.some.inj h
    | some cell =>
      rw [hcell] at h
      have h : cellText F cell = some text := h
      rw [Option.map_some, h]
      exact strip_cellText h

theorem rowDomain_asRow {row : List Cell} {othersFit : Bool} {domainRaw : List Char}
    (h : rowDomain F colMap row = some domainRaw) :
    Domain.rowDomain colMap (asRow F row othersFit) = domainRaw := by
  unfold rowDomain at h
  unfold Domain.rowDomain
  obtain ⟨domain, hdomain, h⟩ := Option.bind_eq_some_iff.mp h
  rw [cellStr_asRow hdomain]
  split at h
  · rw [if_pos ‹_›]
    exact cellStr_asRow h
  · rw [if_neg ‹_›]
    exact Option.some.inj h

theorem insertCompany_unfit (companies : List Company) (name domain : List Char)
    (status : CompanyStatus) : insertCompany companies name domain status false = none :=
  if_neg fun h => Bool.false_ne_true h.1

/-- A row whose name and domain can be decoded goes through the loop as the row of the texts of its
cells does. -/
theorem importCells_eq_importRow {row : List Cell} {name domainRaw : List Char}
    (hname : cellStr F colMap row "name" = some name)
    (hdomain : rowDomain F colMap row = some domainRaw) (s : ImportState) :
    ∃ othersFit, importCells U F fits colMap s row =
      importRow U colMap s (asRow F row othersFit) := by
  -- what the other columns come to depends on the name and the domain the company gets
  refine ⟨(normalizeDomain U domainRaw).toOption.any fun normalized =>
    (importedCompany F colMap row name normalized).any fits, ?_⟩
  unfold importCells rowOutcome importRow
  rw [hname, hdomain, cellStr_asRow hname, rowDomain_asRow hdomain]
  by_cases hempty : name = [] ∨ domainRaw = []
  · simp only [if_pos hempty]
    rfl
  · simp only [if_neg hempty]
    cases validatePublicDomain U domainRaw with
    | error e => rfl
    | ok domainError =>
      cases domainError with
      | some domainError => rfl
      | none =>
        cases normalizeDomain U domainRaw with
        | error e => rfl
        | ok normalized =>
          by_cases hmem : (name, normalized) ∈ s.pairs
          · simp only [List.contains_iff_mem, if_pos hmem]
            rfl
          · simp only [List.contains_iff_mem, if_neg hmem, asRow, Except.toOption, Option.any_some]
            cases importedCompany F colMap row name normalized with
            | none =>
              rw [Option.any_none, insertCompany_unfit]
              rfl
            | some company =>
              rw [Option.any_some]
              dsimp only
              cases insertCompany s.companies name normalized .discovered (fits company) with
              | none => rfl
              | some companies => rfl

/-! ## One row -/

/-- What becomes of a row that passes the checks. -/
theorem rowOutcome_of_checked {companies : List Company} {pairs : List (List Char × List Char)}
    {row : List Cell} {name normalized : List Char} (h : Checked U F colMap row name normalized) :
    rowOutcome U F fits colMap companies pairs row =
      if pairs.contains (name, normalized) then .skipped
      else match importedCompany F colMap row name normalized with
      | none => .failed .exception
      | some company =>
        match insertCompany companies name normalized .discovered (fits company) with
        | some companies => .imported companies name normalized
        | none => .failed .exception := by
  obtain ⟨hname, hne, domainRaw, hdomain, hdomainNe, hvalid, hnormalized⟩ := h
  unfold rowOutcome
  simp only [hname, hdomain, if_neg (not_or.mpr ⟨hne, hdomainNe⟩), hvalid, hnormalized]

/-- A row that does not pass them fails. -/
theorem failed_or_checked (companies : List Company) (pairs : List (List Char × List Char))
    (row : List Cell) :
    (∃ error, rowOutcome U F fits colMap companies pairs row = .failed error) ∨
      ∃ name normalized, Checked U F colMap row name normalized := by
  unfold rowOutcome
  split
  · rename_i name domainRaw hname hdomain
    split
    · exact .inl ⟨_, rfl⟩
    · rename_i hne
      obtain ⟨hne, hdomainNe⟩ := not_or.mp hne
      split
      · exact .inl ⟨_, rfl⟩
      · rename_i normalized hvalid hnormalized
        exact .inr ⟨name, normalized, hname, hne, domainRaw, hdomain, hdomainNe, hvalid,
          hnormalized⟩
      · exact .inl ⟨_, rfl⟩
  · exact .inl ⟨_, rfl⟩

/-- A row is skipped, exactly if it passes the checks and its pair is a known one. -/
theorem rowOutcome_eq_skipped_iff {companies : List Company}
    {pairs : List (List Char × List Char)} {row : List Cell} :
    rowOutcome U F fits colMap companies pairs row = .skipped ↔
      ∃ name normalized, Checked U F colMap row name normalized ∧ (name, normalized) ∈ pairs := by
  constructor
  · intro h
    rcases failed_or_checked companies pairs row with ⟨error, he⟩ | ⟨name, normalized, hchecked⟩
    · rw [h] at he
      cases he
    · refine ⟨name, normalized, hchecked, ?_⟩
      by_contra hmem
      rw [rowOutcome_of_checked hchecked, if_neg (mt List.contains_iff_mem.mp hmem)] at h
      split at h
      · cases h
      · split at h <;> cases h
  · rintro ⟨name, normalized, hchecked, hmem⟩
    rw [rowOutcome_of_checked hchecked, if_pos (List.contains_iff_mem.mpr hmem)]

/-- A row is imported, exactly if it passes the checks, its pair is a new one, its other cells can
be decoded and the database takes the company. -/
theorem rowOutcome_eq_imported_iff {companies stored : List Company}
    {pairs : List (List Char × List Char)} {row : List Cell} {name normalized : List Char} :
    rowOutcome U F fits colMap companies pairs row = .imported stored name normalized ↔
      Checked U F colMap row name normalized ∧ (name, normalized) ∉ pairs ∧
        ∃ company, importedCompany F colMap row name normalized = some company ∧
          insertCompany companies name normalized .discovered (fits company) = some stored := by
  constructor
  · intro h
    rcases failed_or_checked companies pairs row with ⟨error, he⟩ | ⟨name', normalized', hchecked⟩
    · rw [h] at he
      cases he
    · rw [rowOutcome_of_checked hchecked] at h
      split at h
      · cases h
      · rename_i hmem
        split at h
        · cases h
        · rename_i company hcompany
          split at h
          · rename_i hinsert
            cases h
            exact ⟨hchecked, mt List.contains_iff_mem.mpr hmem, company, hcompany, hinsert⟩
          · cases h
  · rintro ⟨hchecked, hmem, company, hcompany, hinsert⟩
    rw [rowOutcome_of_checked hchecked, if_neg (mt List.contains_iff_mem.mp hmem), hcompany]
    dsimp only
    rw [hinsert]

/-- The name and the stored domain. -/
def pair (c : Company) : List Char × List Char := (c.name, c.domain)

/-- An imported row is a new one for the table, and is kept in mind. -/
theorem imported_cases {companies stored : List Company} {pairs : List (List Char × List Char)}
    {row : List Cell} {name normalized : List Char}
    (h : rowOutcome U F fits colMap companies pairs row = .imported stored name normalized) :
    ∃ c : Company, pair c = (name, normalized) ∧ stored = companies ++ [c] ∧
      ∀ e ∈ companies, pair c ≠ pair e := by
  obtain ⟨-, -, company, -, hins⟩ := rowOutcome_eq_imported_iff.mp h
  unfold insertCompany at hins
  split at hins
  · rename_i hfits
    obtain rfl := Option.some.inj hins
    refine ⟨_, rfl, rfl, fun e he heq => hfits.2.2.2 ⟨e, he, ?_, ?_⟩⟩
    · exact (congrArg Prod.fst heq).symm
    · exact (congrArg Prod.snd heq).symm
  · cases hins

/-- The counters of a state are those of the outcomes so far, and its table has the new companies
at the end. -/
structure Accounted (companies : List Company) (os : List RowOutcome) (news : List Company)
    (s : ImportState) : Prop where
  imported : s.imported = os.countP (·.isImported)
  skipped : s.skipped = os.countP (·.isSkipped)
  errors : s.errors = failures 2 os
  rowIdx : s.rowIdx = 2 + os.length
  stored : s.companies = companies ++ news
  count : s.imported = news.length
  /-- No new company has the name and the domain of one that was there. -/
  newPair : ∀ c ∈ news, ∀ e ∈ companies, pair c ≠ pair e
  distinct : news.Pairwise fun earlier later => pair earlier ≠ pair later

theorem failures_append (i : ℕ) (os : List RowOutcome) (o : RowOutcome) :
    failures i (os ++ [o]) = failures i os ++ failures (i + os.length) [o] := by
  induction os generalizing i with
  | nil => rfl
  | cons o' os ih =>
    have hlen : i + 1 + os.length = i + (os.length + 1) := by omega
    have htail := ih (i + 1)
    rw [hlen] at htail
    cases o' with
    | imported companies name normalized => exact htail
    | skipped => exact htail
    | failed error => exact congrArg ((i, error) :: ·) htail

theorem accounted_start (companies : List Company) :
    Accounted companies [] [] (importStart companies) where
  imported := rfl
  skipped := rfl
  errors := rfl
  rowIdx := rfl
  stored := (List.append_nil _).symm
  count := rfl
  newPair := by simp
  distinct := List.Pairwise.nil

/-- What an outcome adds to the counters. -/
theorem counters_applyOutcome (s : ImportState) (o : RowOutcome) :
    (applyOutcome s o).imported = s.imported + [o].countP (·.isImported) ∧
    (applyOutcome s o).skipped = s.skipped + [o].countP (·.isSkipped) ∧
    (applyOutcome s o).errors = s.errors ++ failures s.rowIdx [o] ∧
    (applyOutcome s o).rowIdx = s.rowIdx + 1 := by
  cases o with
  | imported companies name normalized => exact ⟨rfl, rfl, (List.append_nil _).symm, rfl⟩
  | skipped => exact ⟨rfl, rfl, (List.append_nil _).symm, rfl⟩
  | failed error => exact ⟨rfl, rfl, rfl, rfl⟩

theorem Accounted.applyOutcome {companies news news' : List Company} {os : List RowOutcome}
    {s : ImportState} {o : RowOutcome} (h : Accounted companies os news s)
    (hstored : (applyOutcome s o).companies = companies ++ news')
    (hcount : (applyOutcome s o).imported = news'.length)
    (hnew : ∀ c ∈ news', ∀ e ∈ companies, pair c ≠ pair e)
    (hdistinct : news'.Pairwise fun earlier later => pair earlier ≠ pair later) :
    Accounted companies (os ++ [o]) news' (applyOutcome s o) := by
  obtain ⟨himported, hskipped, herrors, hrowIdx⟩ := counters_applyOutcome s o
  constructor
  · rw [himported, h.imported, List.countP_append]
  · rw [hskipped, h.skipped, List.countP_append]
  · rw [herrors, h.errors, h.rowIdx, failures_append]
  · rw [hrowIdx, h.rowIdx, List.length_append]
    rfl
  · exact hstored
  · exact hcount
  · exact hnew
  · exact hdistinct

theorem Accounted.importCells {companies news : List Company} {os : List RowOutcome}
    {s : ImportState} (h : Accounted companies os news s) (row : List Cell) :
    ∃ news', Accounted companies (os ++ [rowOutcome U F fits colMap s.companies s.pairs row])
      news' (importCells U F fits colMap s row) := by
  unfold Import.importCells
  cases ho : rowOutcome U F fits colMap s.companies s.pairs row with
  | imported stored name normalized =>
    obtain ⟨c, hc, hstored, hfree⟩ := imported_cases ho
    rw [h.stored] at hfree hstored
    refine ⟨news ++ [c], h.applyOutcome ?_ ?_ ?_ ?_⟩
    · rw [← List.append_assoc]
      exact hstored
    · show s.imported + 1 = _
      rw [h.count, List.length_append]
      rfl
    · intro d hd e he
      rcases List.mem_append.mp hd with hd | hd
      · exact h.newPair d hd e he
      · rw [List.mem_singleton.mp hd]
        exact hfree e (List.mem_append_left _ he)
    · rw [List.pairwise_append]
      refine ⟨h.distinct, List.pairwise_singleton _ _, fun e he d hd => ?_⟩
      rw [List.mem_singleton.mp hd]
      exact (hfree e (List.mem_append_right _ he)).symm
  | skipped => exact ⟨news, h.applyOutcome h.stored h.count h.newPair h.distinct⟩
  | failed error => exact ⟨news, h.applyOutcome h.stored h.count h.newPair h.distinct⟩

/-! ## All rows -/

theorem Accounted.foldl {companies news : List Company} {os : List RowOutcome} {s : ImportState}
    (h : Accounted companies os news s) (rows : List (List Cell)) :
    ∃ news', Accounted companies (os ++ outcomes U F fits colMap s rows) news'
      (rows.foldl (Import.importCells U F fits colMap) s) := by
  induction rows generalizing os news s with
  | nil => exact ⟨news, by rwa [outcomes, List.append_nil]⟩
  | cons row rows ih =>
    obtain ⟨news', h'⟩ : ∃ news', Accounted companies
        (os ++ [rowOutcome U F fits colMap s.companies s.pairs row]) news'
        (Import.importCells U F fits colMap s row) := h.importCells row
    obtain ⟨news'', h''⟩ := ih h'
    exact ⟨news'', by rwa [List.append_assoc] at h''⟩

theorem length_outcomes (s : ImportState) (rows : List (List Cell)) :
    (outcomes U F fits colMap s rows).length = rows.length := by
  induction rows generalizing s with
  | nil => rfl
  | cons row rows ih => exact congrArg (· + 1) (ih _)

theorem outcomes_append (s : ImportState) (before after : List (List Cell)) :
    outcomes U F fits colMap s (before ++ after) = outcomes U F fits colMap s before ++
      outcomes U F fits colMap (before.foldl (Import.importCells U F fits colMap) s) after := by
  induction before generalizing s with
  | nil => rfl
  | cons row before ih => exact congrArg (_ :: ·) (ih _)

/-- Each row has one outcome of the three kinds. -/
theorem countP_outcomes (os : List RowOutcome) :
    os.countP (·.isImported) + os.countP (·.isSkipped) + (failures 2 os).length = os.length := by
  generalize 2 = i
  induction os generalizing i with
  | nil => rfl
  | cons o os ih =>
    have htail := ih (i + 1)
    cases o with
    | imported companies name normalized =>
      rw [List.countP_cons_of_pos rfl, List.countP_cons_of_neg Bool.false_ne_true]
      show _ + 1 + _ + (failures (i + 1) os).length = os.length + 1
      omega
    | skipped =>
      rw [List.countP_cons_of_neg Bool.false_ne_true, List.countP_cons_of_pos rfl]
      show _ + (_ + 1) + (failures (i + 1) os).length = os.length + 1
      omega
    | failed error =>
      rw [List.countP_cons_of_neg Bool.false_ne_true, List.countP_cons_of_neg Bool.false_ne_true]
      show _ + _ + ((failures (i + 1) os).length + 1) = os.length + 1
      omega

/-- The pairs in memory are those of the table and of the rows imported so far. -/
theorem pairs_foldl (s : ImportState) (rows : List (List Cell)) :
    (rows.foldl (Import.importCells U F fits colMap) s).pairs =
      s.pairs ++ (outcomes U F fits colMap s rows).filterMap (·.newPair) := by
  induction rows generalizing s with
  | nil => exact (List.append_nil _).symm
  | cons row rows ih =>
    rw [List.foldl_cons, ih, outcomes]
    unfold Import.importCells
    cases rowOutcome U F fits colMap s.companies s.pairs row with
    | imported stored name normalized => exact List.append_assoc _ _ _
    | skipped => rfl
    | failed error => rfl

/-! ## A row that fails -/

/-- What later rows depend on. -/
structure SameStore (s t : ImportState) : Prop where
  companies : s.companies = t.companies
  pairs : s.pairs = t.pairs

theorem SameStore.importCells {s t : ImportState} (h : SameStore s t) (row : List Cell) :
    SameStore (importCells U F fits colMap s row) (importCells U F fits colMap t row) := by
  unfold Import.importCells
  rw [h.companies, h.pairs]
  cases rowOutcome U F fits colMap t.companies t.pairs row with
  | imported companies name normalized => exact ⟨rfl, congrArg (· ++ _) h.pairs⟩
  | skipped => exact ⟨h.companies, h.pairs⟩
  | failed error => exact ⟨h.companies, h.pairs⟩

theorem SameStore.foldl {s t : ImportState} (h : SameStore s t) (rows : List (List Cell)) :
    SameStore (rows.foldl (Import.importCells U F fits colMap) s)
      (rows.foldl (Import.importCells U F fits colMap) t) := by
  induction rows generalizing s t with
  | nil => exact h
  | cons row rows ih => exact ih (h.importCells row)

theorem SameStore.outcomes {s t : ImportState} (h : SameStore s t) (rows : List (List Cell)) :
    outcomes U F fits colMap s rows = outcomes U F fits colMap t rows := by
  induction rows generalizing s t with
  | nil => rfl
  | cons row rows ih =>
    unfold Import.outcomes
    rw [ih (h.importCells row), h.companies, h.pairs]

theorem sameStore_of_failed {s : ImportState} {row : List Cell} {error : ImportError}
    (h : rowOutcome U F fits colMap s.companies s.pairs row = .failed error) :
    SameStore (importCells U F fits colMap s row) s := by
  unfold Import.importCells
  rw [h]
  exact ⟨rfl, rfl⟩

/-- Rows that are in the table stay there. -/
theorem companies_prefix (s : ImportState) (rows : List (List Cell)) :
    s.companies <+: (rows.foldl (Import.importCells U F fits colMap) s).companies := by
  induction rows generalizing s with
  | nil => exact List.prefix_rfl
  | cons row rows ih =>
    refine List.IsPrefix.trans ?_ (ih _)
    unfold Import.importCells
    cases ho : rowOutcome U F fits colMap s.companies s.pairs row with
    | imported stored name normalized =>
      obtain ⟨c, _, hstored, _⟩ := imported_cases ho
      show s.companies <+: stored
      rw [hstored]
      exact List.prefix_append _ _
    | skipped => exact List.prefix_rfl
    | failed error => exact List.prefix_rfl

end

/-- What an import ends with, whatever is in the sheet and in the table:

* each of the rows considered, 500 at most, has one outcome, and the counters and the errors are
  those of the outcomes, so that they add up;
* as many companies as were imported are new in the table, none with the name and the domain of
  one that was there or of another one;
* a row is skipped exactly if it passes the checks and has the name and the domain of a company that
  is not archived or of a row imported before it, and imported exactly if it passes them, has not,
  its other cells can be decoded and the database takes the company;
* a row that fails leaves the companies imported before it in the table, and but for its own outcome
  everything is as it would be without the row. -/
theorem importCompanies_accounted (U : Unicode) (F : FloatText) (fits : ImportedCompany → Bool)
    (colMap : List (String × ℕ)) (companies : List Company) (rows : List (List Cell)) :
    let start := importStart companies
    let s := importCompanies U F fits colMap companies rows
    let os := outcomes U F fits colMap start (considered rows)
    os.length = min 500 rows.length ∧
    s.imported + s.skipped + s.errors.length = min 500 rows.length ∧
    (∃ news, Accounted companies os news s) ∧
    (∀ before row after, considered rows = before ++ row :: after →
      let t := before.foldl (importCells U F fits colMap) start
      let known := existingPairs companies ++
        (outcomes U F fits colMap start before).filterMap (·.newPair)
      let outcome := rowOutcome U F fits colMap t.companies t.pairs row
      os[before.length]? = some outcome ∧
      (outcome = .skipped ↔
        ∃ name normalized, Checked U F colMap row name normalized ∧ (name, normalized) ∈ known) ∧
      ∀ stored name normalized, outcome = .imported stored name normalized ↔
        Checked U F colMap row name normalized ∧ (name, normalized) ∉ known ∧
          ∃ company, importedCompany F colMap row name normalized = some company ∧
            insertCompany t.companies name normalized .discovered (fits company) = some stored) ∧
    ∀ before row after error, considered rows = before ++ row :: after →
      let t := before.foldl (importCells U F fits colMap) start
      let without := (before ++ after).foldl (importCells U F fits colMap) start
      rowOutcome U F fits colMap t.companies t.pairs row = .failed error →
        t.companies <+: s.companies ∧ s.companies = without.companies ∧
        ∃ os', outcomes U F fits colMap start (before ++ after) =
            outcomes U F fits colMap start before ++ os' ∧
          os = outcomes U F fits colMap start before ++ .failed error :: os' := by
  intro start s os
  have hlen : os.length = min 500 rows.length :=
    (length_outcomes _ _).trans List.length_take
  obtain ⟨news, hnews⟩ : ∃ news, Accounted companies os news s :=
    (accounted_start companies).foldl (considered rows)
  refine ⟨hlen, ?_, ⟨news, hnews⟩, ?_, ?_⟩
  · rw [hnews.imported, hnews.skipped, hnews.errors, countP_outcomes, hlen]
  · intro before row after hrows t known outcome
    have hpairs : t.pairs = known := pairs_foldl start before
    refine ⟨?_, ?_, fun stored name normalized => ?_⟩
    · show (outcomes U F fits colMap start (considered rows))[before.length]? = _
      rw [hrows, outcomes_append, List.getElem?_append_right (length_outcomes _ _).le,
        length_outcomes, Nat.sub_self]
      rfl
    · rw [← hpairs]
      exact rowOutcome_eq_skipped_iff
    · rw [← hpairs]
      exact rowOutcome_eq_imported_iff
  · intro before row after error hrows t without hfailed
    have hsame := sameStore_of_failed hfailed
    have hs : s =
        after.foldl (importCells U F fits colMap) (importCells U F fits colMap t row) := by
      show (considered rows).foldl _ _ = _
      rw [hrows, List.foldl_append, List.foldl_cons]
    have hwithout : without = after.foldl (importCells U F fits colMap) t := List.foldl_append
    refine ⟨?_, ?_, outcomes U F fits colMap t after, outcomes_append _ _ _, ?_⟩
    · rw [hs, (hsame.foldl after).companies]
      exact companies_prefix t after
    · rw [hs, hwithout]
      exact (hsame.foldl after).companies
    · show outcomes U F fits colMap start (considered rows) = _
      rw [hrows, outcomes_append, outcomes, hfailed, hsame.outcomes after]

end Import
end LeadPulse
