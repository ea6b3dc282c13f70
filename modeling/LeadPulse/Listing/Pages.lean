import LeadPulse.Database
import LeadPulse.Lib.OrderedPages
import LeadPulse.Pipeline.ScrapeLimit
import LeadPulse.Scoring.Dimensions

/-!
# Lists in pages

The five lists that the API returns page by page: `list_companies`, `list_company_contacts`,
`list_company_signals` and `list_company_scrape_jobs` (`api/v1/companies.py`) and `list_contacts`
(`api/v1/contacts.py`). Each request builds a query, which the database sorts anew for every page.

The two lists with a sort parameter sort by the primary key in the end, so that all pages are cut
from one order. The lists of a company sort by the time of creation alone, and rows that are
inserted in one transaction have the same: `pages_coverOnce_iff` says when this does no harm,
`sameTime_contact_twice` shows a contact that comes twice while another one does not come at all.
-/

namespace LeadPulse
namespace Listing

open Paging Scoring Scrape

/-! ## Rows -/

/-- A company with the columns that it is filtered and sorted by. -/
structure CompanyRow extends Company where
  industry : Option (List Char) := none
  icpScore : Option ℚ := none
  monitor : Bool := false
  createdAt : Time
  updatedAt : Time
deriving DecidableEq, Repr

/-- A contact with the columns that it is filtered and sorted by. -/
structure ContactRow extends Contact where
  emailStatus : Option EmailStatus := none
  createdAt : Time
deriving DecidableEq, Repr

/-- The tables, each with its primary key. -/
structure ListTables where
  companies : List CompanyRow
  contacts : List ContactRow
  signals : List SignalRow
  scrapeJobs : List ScrapeRow
  keyedCompanies : Table.Keyed (fun c : CompanyRow => c.id) companies
  keyedContacts : Table.Keyed (fun c : ContactRow => c.id) contacts
  keyedSignals : Table.Keyed (fun s : SignalRow => s.id) signals
  keyedScrapeJobs : Table.Keyed ScrapeRow.id scrapeJobs

/-- What the database makes of texts. -/
structure TextRules where
  /-- The collation. -/
  collate : SortOrder (List Char)
  /-- `value ILIKE pattern ESCAPE '\'`, for a value that is not `NULL`. -/
  ilike : List Char → List Char → Bool

/-- `func.date` -/
def dateOf (t : Time) : ℤ := t / hours 24

/-! ## Patterns -/

/-- `s.replace(c, text)` -/
def replaceChar (c : Char) (text s : List Char) : List Char :=
  s.flatMap fun x => if x = c then text else [x]

def escapeLike (value : List Char) : List Char :=
  replaceChar '_' ['\\', '_'] (replaceChar '%' ['\\', '%'] (replaceChar '\\' ['\\', '\\'] value))

/-- `f"%{escape_like(value)}%"` -/
def containsPattern (value : List Char) : List Char := '%' :: escapeLike value ++ ['%']

/-- The column contains the text; `NULL` does not. -/
def TextRules.contains (t : TextRules) (text : List Char) (column : Option (List Char)) : Bool :=
  column.any fun value => t.ilike value (containsPattern text)

/-! ## Sorting -/

inductive Direction where
  | asc
  | desc
deriving DecidableEq, Repr

/-- A column, `none` for `NULL`. -/
structure Column (α : Type) where
  {κ : Type}
  key : α → Option κ
  order : SortOrder κ

namespace Column

variable {α : Type} (c : Column α)

/-- `nullslast(column.asc())`, `nullslast(column.desc())` -/
def nullsLast : Direction → SortOrder α
  | .asc => c.order.nullsLast.onKey c.key
  | .desc => c.order.reverse.nullsLast.onKey c.key

/-- `column.asc()`, `column.desc()`: the database takes `NULL` for the greatest value. -/
def plain : Direction → SortOrder α
  | .asc => c.order.nullsLast.onKey c.key
  | .desc => c.order.reverse.nullsFirst.onKey c.key

end Column

/-- By the primary key, smallest first. -/
def byId {α : Type} (id : α → ℕ) : SortOrder α := SortOrder.asc.onKey id

/-- By the time of creation, newest first. -/
def newestFirst {α : Type} (createdAt : α → Time) : SortOrder α :=
  SortOrder.asc.reverse.onKey createdAt

/-! ## Queries and responses -/

/-- The rows that match and the order in which they are asked for. -/
structure PagedQuery (α : Type) where
  rows : List α
  order : SortOrder α

structure PaginatedResponse (α : Type) where
  items : List α
  total : ℕ
  offset : ℕ
  limit : ℕ
deriving DecidableEq, Repr

/-- The response with a page of `sorted`, which is what the database makes of the rows. -/
def PagedQuery.respond {α : Type} (q : PagedQuery α) (sorted : List α) (offset limit : ℕ) :
    PaginatedResponse α where
  items := (sorted.drop offset).take limit
  total := q.rows.length
  offset := offset
  limit := limit

/-- The number of rows in a page, as the query parameter admits it. -/
structure PageLimit where
  size : ℕ
  one_le : 1 ≤ size
  le_hundred : size ≤ 100

section

variable (t : TextRules) (db : ListTables)

/-! ### `list_companies` -/

structure CompanyParams where
  statusFilter : Option CompanyStatus := none
  industry : Option (List Char) := none
  minScore : Option ℚ := none
  minLeadScore : Option ℚ := none
  monitor : Option Bool := none
  search : Option (List Char) := none
  addedAfter : Option ℤ := none
  addedBefore : Option ℤ := none
  sort : String := "created_at"
  order : Direction := .desc

/-- `_SORT_COLUMNS` of `api/v1/companies.py`. -/
def companySortColumns : List (String × Column CompanyRow) :=
  [("name", ⟨fun c => some c.name, t.collate⟩), ("icp_score", ⟨(·.icpScore), .asc⟩),
    ("lead_score", ⟨(·.leadScore), .asc⟩), ("created_at", ⟨fun c => some c.createdAt, .asc⟩),
    ("updated_at", ⟨fun c => some c.updatedAt, .asc⟩)]

/-- The `WHERE` of the query. Without a status filter the archived companies are left out. -/
def companyMatches (p : CompanyParams) (c : CompanyRow) : Bool :=
  (match p.statusFilter with
    | some status => c.status = status
    | none => c.status ≠ .archived) &&
  (p.industry.all fun industry => t.contains industry c.industry) &&
  (p.minScore.all fun least => c.icpScore.any (least ≤ ·)) &&
  (p.minLeadScore.all fun least => c.leadScore.any (least ≤ ·)) &&
  (p.monitor.all fun monitor => c.monitor = monitor) &&
  (p.addedAfter.all fun day => day ≤ dateOf c.createdAt) &&
  (p.addedBefore.all fun day => dateOf c.createdAt ≤ day) &&
  (p.search.all fun text => t.contains text (some c.name) || t.contains text (some c.domain))

def listCompanies (p : CompanyParams) : Except HTTPException (PagedQuery CompanyRow) :=
  match (companySortColumns t).lookup p.sort with
  | none => .error ⟨400, "Invalid sort field. Allowed: " ++
      ", ".intercalate ((companySortColumns t).map Prod.fst)⟩
  | some column => .ok
      { rows := db.companies.filter (companyMatches t p)
        order := (column.nullsLast p.order).thenBy (byId (·.id)) }

/-! ### `list_contacts` -/

structure ContactParams where
  search : Option (List Char) := none
  emailStatus : Option EmailStatus := none
  companyId : Option ℕ := none
  sort : String := "created_at"
  order : Direction := .desc

/-- `_SORT_COLUMNS` of `api/v1/contacts.py`, over contacts with their companies. -/
def contactSortColumns : List (String × Column (ContactRow × CompanyRow)) :=
  [("name", ⟨fun r => some r.1.name, t.collate⟩), ("email", ⟨(·.1.email), t.collate⟩),
    ("title", ⟨(·.1.title), t.collate⟩), ("created_at", ⟨fun r => some r.1.createdAt, .asc⟩),
    ("company_name", ⟨fun r => some r.2.name, t.collate⟩)]

/-- `select(Contact).join(Company, Contact.company_id == Company.id)` -/
def contactsWithCompanies : List (ContactRow × CompanyRow) :=
  db.contacts.flatMap fun contact =>
    (db.companies.filter fun company => company.id = contact.companyId).map fun company =>
      (contact, company)

def contactMatches (p : ContactParams) (r : ContactRow × CompanyRow) : Bool :=
  (p.emailStatus.all fun status => r.1.emailStatus = some status) &&
  (p.companyId.all fun companyId => r.1.companyId = companyId) &&
  (p.search.all fun text => t.contains text (some r.1.name) || t.contains text r.1.email ||
    t.contains text r.1.title || t.contains text (some r.2.name))

def listContacts (p : ContactParams) : PagedQuery (ContactRow × CompanyRow) :=
  let column := ((contactSortColumns t).lookup p.sort).getD
    ⟨fun r => some r.1.createdAt, .asc⟩
  { rows := (contactsWithCompanies db).filter (contactMatches t p)
    order := (column.plain p.order).thenBy (byId (·.1.id)) }

/-! ### The lists of a company -/

def getCompanyOr404 (companyId : ℕ) : Except HTTPException CompanyRow :=
  match db.companies.find? fun c => c.id = companyId with
  | none => .error ⟨404, "Company not found"⟩
  | some company =>
    if company.status = .archived then .error ⟨404, "Company not found"⟩ else .ok company

def contactsOf (companyId : ℕ) : List ContactRow :=
  db.contacts.filter fun c => c.companyId = companyId

/-- An empty list of types is no filter. -/
def signalsOf (companyId : ℕ) (signalType : List SignalType) : List SignalRow :=
  db.signals.filter fun s =>
    s.companyId = companyId && (signalType.isEmpty || signalType.contains s.signalType)

def scrapeJobsOf (companyId : ℕ) (jobStatus : Option ScrapeJobStatus) : List ScrapeRow :=
  db.scrapeJobs.filter fun j =>
    j.companyId = companyId && jobStatus.all fun status => j.status = status

def listCompanyContacts (companyId : ℕ) : Except HTTPException (PagedQuery ContactRow) :=
  (getCompanyOr404 db companyId).map fun _ =>
    { rows := contactsOf db companyId
      order := newestFirst (·.createdAt) }

def listCompanySignals (companyId : ℕ) (signalType : List SignalType) :
    Except HTTPException (PagedQuery SignalRow) :=
  (getCompanyOr404 db companyId).map fun _ =>
    { rows := signalsOf db companyId signalType
      order := newestFirst (·.createdAt) }

def listCompanyScrapeJobs (companyId : ℕ) (jobStatus : Option ScrapeJobStatus) :
    Except HTTPException (PagedQuery ScrapeRow) :=
  (getCompanyOr404 db companyId).map fun _ =>
    { rows := scrapeJobsOf db companyId jobStatus
      order := newestFirst (·.createdAt) }

end

/-! ## Reading page after page -/

section

variable {α : Type}

/-- The responses to the requests for one page after the other; the database may sort anew for
each of them. -/
def PagedQuery.Replies (q : PagedQuery α) (limit : ℕ) (replies : ℕ → PaginatedResponse α) : Prop :=
  ∀ k, ∃ sorted, SortedAs q.order q.rows sorted ∧ replies k = q.respond sorted (k * limit) limit

/-- Pages up to the total hold each of the rows once, and as many as the total says. -/
def PagedQuery.CoversOnce (q : PagedQuery α) (limit : ℕ) : Prop :=
  ∀ replies, q.Replies limit replies → ∀ n, (replies 0).total ≤ n * limit →
    let items := (List.range n).flatMap fun k => (replies k).items
    items.Perm q.rows ∧ ∀ k, (replies k).total = items.length

/-- If there is an answer, all rows are read once. -/
def CoversOnceIfOk (query : Except HTTPException (PagedQuery α)) (limit : ℕ) : Prop :=
  ∀ q, query = .ok q → q.CoversOnce limit

/-- Rows that are created at the same time are on one page: with `a` rows that are newer and `b`
that are not older than a row, the end of no page is between the two numbers. -/
def TiesWithinPages (createdAt : α → Time) (limit : ℕ) (rows : List α) : Prop :=
  ∀ r ∈ rows, ∀ k, k * limit ≤ rows.countP (fun s => createdAt r < createdAt s) ∨
    rows.countP (fun s => createdAt r ≤ createdAt s) ≤ k * limit

end

/-- A request for one of the lists, without its page. -/
inductive ListRequest where
  | companies (params : CompanyParams)
  | contacts (params : ContactParams)
  | companyContacts (companyId : ℕ)
  | companySignals (companyId : ℕ) (signalType : List SignalType)
  | companyScrapeJobs (companyId : ℕ) (jobStatus : Option ScrapeJobStatus)

namespace ListRequest

variable (t : TextRules) (db : ListTables) (limit : ℕ)

/-- The pages of the request hold every matching row once. -/
def CoversOnce : ListRequest → Prop
  | companies params => CoversOnceIfOk (listCompanies t db params) limit
  | contacts params => (listContacts t db params).CoversOnce limit
  | companyContacts companyId => CoversOnceIfOk (listCompanyContacts db companyId) limit
  | companySignals companyId signalType =>
    CoversOnceIfOk (listCompanySignals db companyId signalType) limit
  | companyScrapeJobs companyId jobStatus =>
    CoversOnceIfOk (listCompanyScrapeJobs db companyId jobStatus) limit

/-- In a list of a company that is there, matching rows that are created at the same time are on
one page. The other two lists need no condition. -/
def TiesOnOnePage : ListRequest → Prop
  | companies _ | contacts _ => True
  | companyContacts companyId => (∃ company, getCompanyOr404 db companyId = .ok company) →
    TiesWithinPages (·.createdAt) limit (contactsOf db companyId)
  | companySignals companyId signalType => (∃ company, getCompanyOr404 db companyId = .ok company) →
    TiesWithinPages (·.createdAt) limit (signalsOf db companyId signalType)
  | companyScrapeJobs companyId jobStatus =>
    (∃ company, getCompanyOr404 db companyId = .ok company) →
      TiesWithinPages (·.createdAt) limit (scrapeJobsOf db companyId jobStatus)

end ListRequest

/-! ## What covers the rows -/

section

variable {α : Type} {rows : List α} {limit : ℕ}

/-- The pages that are read are pages of the answers. -/
theorem coversOnce_iff_answers (q : PagedQuery α) (limit : ℕ) :
    q.CoversOnce limit ↔ Paging.CoversOnce q.order limit q.rows := by
  constructor
  · intro h answers hanswers n hn
    exact (h (fun k => q.respond (answers k) (k * limit) limit)
      (fun k => ⟨answers k, hanswers k, rfl⟩) n hn).1
  · intro h replies hreplies n hn
    choose answers hanswers heq using hreplies
    have htotal (k : ℕ) : (replies k).total = q.rows.length := by
      rw [heq k]
      rfl
    have hitems : ((List.range n).flatMap fun k => (replies k).items) =
        readPages limit answers n := by
      unfold readPages
      congr 1
      funext k
      rw [heq k]
      rfl
    rw [htotal 0] at hn
    have hperm := h answers hanswers n hn
    intro items
    rw [← hitems] at hperm
    exact ⟨hperm, fun k => (htotal k).trans hperm.length_eq.symm⟩

/-- A primary key at the end of the order tells any two rows apart. -/
theorem coversOnce_thenById {id : α → ℕ} (o : SortOrder α)
    (hid : ∀ x ∈ rows, ∀ y ∈ rows, id x = id y → x = y) (limit : ℕ) :
    (PagedQuery.mk rows (o.thenBy (byId id))).CoversOnce limit := by
  rw [coversOnce_iff_answers]
  refine coversOnce_of_unique _ limit rows fun x hx y hy hxy hyx => ?_
  obtain ⟨hxy, hyx⟩ := SortOrder.thenBy_le_le hxy hyx
  have hle : id x ≤ id y := of_decide_eq_true hxy
  have hge : id y ≤ id x := of_decide_eq_true hyx
  exact hid x hx y hy (Nat.le_antisymm hle hge)

/-- By the time of creation alone, the rows are covered if ties are within pages. -/
theorem coversOnce_newestFirst {createdAt : α → Time} (hnodup : rows.Nodup) (hlimit : 1 ≤ limit) :
    (PagedQuery.mk rows (newestFirst createdAt)).CoversOnce limit ↔
      TiesWithinPages createdAt limit rows := by
  rw [coversOnce_iff_answers, Paging.coversOnce_iff hlimit hnodup]
  have hbefore (r : α) : numBefore (newestFirst createdAt) rows r =
      rows.countP fun s => createdAt r < createdAt s := by
    refine List.countP_congr fun s _ => ?_
    show (!decide (createdAt s ≤ createdAt r)) = true ↔ _
    simp
  have hthrough (r : α) : numThrough (newestFirst createdAt) rows r =
      rows.countP fun s => createdAt r ≤ createdAt s := rfl
  unfold Unsplit TiesWithinPages
  simp only [hbefore, hthrough]

/-- A list of a company, which is not there or has its rows sorted by time. -/
theorem coversOnceIfOk_iff {createdAt : α → Time} {company : Except HTTPException CompanyRow}
    (hnodup : rows.Nodup) (hlimit : 1 ≤ limit) :
    CoversOnceIfOk (company.map fun _ => PagedQuery.mk rows (newestFirst createdAt)) limit ↔
      ((∃ c, company = .ok c) → TiesWithinPages createdAt limit rows) := by
  rw [← coversOnce_newestFirst hnodup hlimit]
  unfold CoversOnceIfOk
  cases company with
  | error e =>
    constructor
    · rintro _ ⟨c, hc⟩
      cases hc
    · intro _ q hq
      cases hq
  | ok c =>
    constructor
    · exact fun h _ => h _ rfl
    · intro h q hq
      rw [← Except.ok.inj hq]
      exact h ⟨c, rfl⟩

end

/-- A contact comes with one company only. -/
theorem eq_of_contact_id (db : ListTables) {x y : ContactRow × CompanyRow}
    (hx : x ∈ contactsWithCompanies db) (hy : y ∈ contactsWithCompanies db)
    (hid : x.1.id = y.1.id) : x = y := by
  have hpair {r : ContactRow × CompanyRow} (hr : r ∈ contactsWithCompanies db) :
      r.1 ∈ db.contacts ∧ r.2 ∈ db.companies ∧ r.2.id = r.1.companyId := by
    obtain ⟨contact, hcontact, hr⟩ := List.mem_flatMap.mp hr
    obtain ⟨company, hcompany, rfl⟩ := List.mem_map.mp hr
    obtain ⟨hmem, hcompanyId⟩ := List.mem_filter.mp hcompany
    exact ⟨hcontact, hmem, of_decide_eq_true hcompanyId⟩
  obtain ⟨hxContact, hxCompany, hxId⟩ := hpair hx
  obtain ⟨hyContact, hyCompany, hyId⟩ := hpair hy
  have hcontact : x.1 = y.1 :=
    List.inj_on_of_nodup_map db.keyedContacts hxContact hyContact hid
  have hcompanyId : x.2.id = y.2.id := by
    rw [hxId, hyId, hcontact]
  have hcompany : x.2 = y.2 :=
    List.inj_on_of_nodup_map db.keyedCompanies hxCompany hyCompany hcompanyId
  exact Prod.ext hcontact hcompany

/-- The pages of a request hold every matching row once exactly if no page ends between rows of a
company's list that were created at the same time. -/
theorem pages_coverOnce_iff (t : TextRules) (db : ListTables) (request : ListRequest)
    (limit : PageLimit) :
    request.CoversOnce t db limit.size ↔ request.TiesOnOnePage db limit.size := by
  cases request with
  | companies params =>
    refine iff_of_true (fun q hq => ?_) trivial
    unfold listCompanies at hq
    split at hq
    · cases hq
    · rw [← Except.ok.inj hq]
      refine coversOnce_thenById _ (fun x hx y hy => ?_) _
      exact List.inj_on_of_nodup_map db.keyedCompanies (List.mem_of_mem_filter hx)
        (List.mem_of_mem_filter hy)
  | contacts params =>
    refine iff_of_true (coversOnce_thenById _ (fun x hx y hy => ?_) _) trivial
    exact eq_of_contact_id db (List.mem_of_mem_filter hx) (List.mem_of_mem_filter hy)
  | companyContacts companyId =>
    exact coversOnceIfOk_iff ((List.Nodup.of_map _ db.keyedContacts).filter _) limit.one_le
  | companySignals companyId signalType =>
    exact coversOnceIfOk_iff ((List.Nodup.of_map _ db.keyedSignals).filter _) limit.one_le
  | companyScrapeJobs companyId jobStatus =>
    exact coversOnceIfOk_iff ((List.Nodup.of_map _ db.keyedScrapeJobs).filter _) limit.one_le

/-- A company with two contacts of one transaction. -/
def acmeContacts : ListTables where
  companies :=
    [{ id := 1
       name := "Acme".toList
       domain := "acme.com".toList
       createdAt := 0
       updatedAt := 0 }]
  contacts :=
    [{ id := 1, companyId := 1, name := "Ann".toList, createdAt := 7 },
     { id := 2, companyId := 1, name := "Bob".toList, createdAt := 7 }]
  signals := []
  scrapeJobs := []
  keyedCompanies := by decide
  keyedContacts := by decide
  keyedSignals := by decide
  keyedScrapeJobs := by decide

/-- Ann is on the first page and, as the database sorts the other way round for it, on the second
one; Bob is on none. -/
theorem sameTime_contact_twice : ¬ (ListRequest.companyContacts 1).CoversOnce
    { collate := SortOrder.asc.onKey List.length, ilike := fun value pattern => value = pattern }
    acmeContacts 1 := by
  intro h
  let q : PagedQuery ContactRow :=
    { rows := contactsOf acmeContacts 1
      order := newestFirst (·.createdAt) }
  let sorted (k : ℕ) : List ContactRow := if k = 0 then q.rows else q.rows.reverse
  have hsorted (k : ℕ) : SortedAs q.order q.rows (sorted k) := by
    show SortedAs q.order q.rows (if k = 0 then _ else _)
    split
    · exact ⟨List.Perm.refl _, by decide +kernel⟩
    · exact ⟨List.reverse_perm _, by decide +kernel⟩
  have hcover := (h q (by rfl) (fun k => q.respond (sorted k) (k * 1) 1)
    (fun k => ⟨sorted k, hsorted k, rfl⟩) 2 (by decide +kernel)).1
  revert hcover
  decide +kernel

end Listing
end LeadPulse
