import LeadPulse.Lib.Pool
import LeadPulse.Lib.Rotation
import LeadPulse.Lib.Table
import LeadPulse.Models
import LeadPulse.Scoring.Dimensions
import Mathlib.Algebra.Order.Field.Basic
import Mathlib.Tactic.Linarith

/-!
# The daily LinkedIn batch

`_scrape_linkedin_batch` of `tasks/linkedin.py` selects the `daily_limit` companies of the highest
priority and hands them to `LinkedInIntelligenceService.process_batch`, which scrapes them one
after the other. In between anything else may happen to the companies: single scrapes, new
scores, other statuses and URLs, merges.

* the priority is the days since the last scrape and a tenth of the ICP score (`priorityScore`);
* `process_company` writes `linkedin_last_scraped_at` at its end, so that a company whose scrape
  fails keeps its priority;
* an exception other than `ApifyError` ends the batch, and so does its time limit.

There is one clock, for the database and the workers.
-/

namespace LeadPulse
namespace LinkedIn

open Paging Rotation Scoring

/-- An ICP score; the schemas and `calculate_icp_score` keep it in its range. -/
abbrev IcpScore := {x : ℚ // InRange x}

/-- The columns of a company that the batch reads. -/
structure CompanyRow where
  id : ℕ
  status : CompanyStatus := .discovered
  icpScore : Option IcpScore := none
  linkedinUrl : Option (List Char) := none
  linkedinLastScrapedAt : Option Time := none
deriving DecidableEq

/-! ## The query -/

def days (n : ℕ) : Time := hours (24 * n)

/-- `_NEVER_SCRAPED_STALENESS_DAYS` -/
def neverScrapedStalenessDays : ℚ := 999

/-- `_ICP_SCORE_DIVISOR` -/
def icpScoreDivisor : ℚ := 10

def stalenessDays (now : Time) (c : CompanyRow) : ℚ :=
  match c.linkedinLastScrapedAt with
  | none => neverScrapedStalenessDays
  | some t => ((now - t : ℤ) : ℚ) / 1000000 / 86400

def icpBonus (c : CompanyRow) : ℚ :=
  match c.icpScore with
  | none => 0
  | some score => score.val / icpScoreDivisor

def priorityScore (now : Time) (c : CompanyRow) : ℚ := stalenessDays now c + icpBonus c

/-- `ORDER BY priority_score DESC` -/
def byPriority (now : Time) : SortOrder CompanyRow :=
  ((SortOrder.asc (κ := ℚ)).onKey (priorityScore now)).reverse

/-- `linkedin_url IS NOT NULL AND status != 'archived'` -/
def eligible (c : CompanyRow) : Bool := c.linkedinUrl.isSome && c.status ≠ .archived

/-- `not company.linkedin_url` fails. -/
def CompanyRow.hasUrl (c : CompanyRow) : Bool := c.linkedinUrl.getD [] ≠ []

/-! ## The system -/

/-- How the scrape of a company comes out: it is done, `ApifyError` is caught, or another exception
leaves `process_company`. -/
inductive Outcome where
  | done
  | apifyError
  | raised
deriving DecidableEq

/-- A scrape that has been started at Apify, by a batch or by a task of its own. -/
structure Call where
  company : ℕ
  byBatch : Bool
deriving DecidableEq

structure State where
  companies : List CompanyRow
  nextId : ℕ
  /-- for each batch, the companies that are still to be scraped -/
  batches : List (List ℕ) := []
  calls : List Call := []
  clock : Time
deriving DecidableEq

/-- The columns of a company that others write. -/
structure Patch where
  status : CompanyStatus
  icpScore : Option IcpScore
  linkedinUrl : Option (List Char)

def CompanyRow.apply (p : Patch) (c : CompanyRow) : CompanyRow :=
  { c with status := p.status, icpScore := p.icpScore, linkedinUrl := p.linkedinUrl }

inductive Action where
  /-- a batch selects its companies; the database has sorted them to `answer` -/
  | selectBatch (now : Time) (dailyLimit : ℕ) (answer : List CompanyRow)
  /-- batch `i` goes on to its next company -/
  | processNext (i : ℕ) (now : Time) (o : Outcome)
  /-- the time limit, or the end of the worker -/
  | killBatch (i : ℕ)
  /-- `scrape_company_linkedin`, or the `_safe` task of a pipeline -/
  | scrapeSingle (id : ℕ) (now : Time) (o : Outcome)
  | create (p : Patch)
  | update (id : ℕ) (p : Patch)
  /-- `merge_companies` deletes the duplicate -/
  | merge (duplicate : ℕ)

/-- `process_company` -/
def processCompany (byBatch : Bool) (id : ℕ) (now : Time) (o : Outcome) (s : State) : State :=
  match Table.get CompanyRow.id s.companies id with
  | none => s
  | some c =>
    if c.hasUrl then
      let called := s.calls ++ [{ company := id, byBatch := byBatch }]
      if o = .done then
        { s with
          calls := called
          companies := Table.modify CompanyRow.id s.companies id fun c =>
            { c with linkedinLastScrapedAt := some now } }
      else { s with calls := called }
    else s

instance (o : SortOrder CompanyRow) (rows s : List CompanyRow) : Decidable (SortedAs o rows s) :=
  decidable_of_iff (s.Perm rows ∧ s.Pairwise fun a b => o.le a b = true)
    ⟨fun h => ⟨h.1, h.2⟩, fun h => ⟨h.perm, h.sorted⟩⟩

/-- One step; `none` for what cannot happen. -/
def step (s : State) : Action → Option State
  | .selectBatch now dailyLimit answer =>
    if s.clock ≤ now ∧ SortedAs (byPriority now) (s.companies.filter eligible) answer then
      some { s with
        clock := now
        batches := s.batches ++ [(answer.take dailyLimit).map CompanyRow.id] }
    else none
  | .processNext i now o =>
    match s.batches[i]? with
    | some (id :: rest) =>
      if s.clock ≤ now then
        let s := { s with
          clock := now
          batches := s.batches.set i (if o = .raised then [] else rest) }
        some (processCompany true id now o s)
      else none
    | _ => none
  | .killBatch i => some { s with batches := s.batches.set i [] }
  | .scrapeSingle id now o =>
    if s.clock ≤ now then some (processCompany false id now o { s with clock := now }) else none
  | .create p =>
    some { s with
      companies := s.companies ++ [CompanyRow.apply p { id := s.nextId }]
      nextId := s.nextId + 1 }
  | .update id p =>
    some { s with companies := Table.modify CompanyRow.id s.companies id (CompanyRow.apply p) }
  | .merge duplicate =>
    some { s with companies := Table.remove CompanyRow.id s.companies duplicate }

/-- How often a scrape of a company has been started. -/
def State.tries (s : State) (c : ℕ) : ℕ := s.calls.countP fun call => call.company = c

/-- The companies that batches have selected and not yet come to. -/
def State.pending (s : State) : List ℕ := s.batches.flatten

end LinkedIn
end LeadPulse
