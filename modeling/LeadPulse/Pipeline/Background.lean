import LeadPulse.Lib.Table
import LeadPulse.Models

/-!
# Background work on companies

What the background services do to the rows of companies and of their CRM integrations:
`ClickUpCRMProvider` (`services/crm/clickup_provider.py`), `enrich_company`, `score_company`
and the LinkedIn scan. Calls to ClickUp are answered by a `ClickUpAnswers`; a service that
raises before its commit changes nothing.

The services that write the status of a company load the company first: a `CompanyJob` is
such a service between its load and its commit.
-/

namespace LeadPulse

structure ClickUpTask where
  id : String
  name : String
  status : Option String
  url : Option String
deriving DecidableEq, Repr

/-- The answers of ClickUp to one operation; `getTask` is `none` for a task that is gone. -/
structure ClickUpAnswers where
  byField : Except String (Option ClickUpTask)
  getTask : Except String (Option ClickUpTask)
  byName : Except String (Option ClickUpTask)
  createTask : Except String ClickUpTask
  updateTask : Except String ClickUpTask

/-- The configuration of the provider. -/
structure ClickUpConfig where
  domainFieldId : String := ""
  qualifyThreshold : ℚ := 50
deriving DecidableEq, Repr

/-- The two tables. -/
structure LeadTables where
  companies : List Company
  integrations : List CRMIntegration
deriving DecidableEq, Repr

namespace LeadTables

def company (db : LeadTables) (companyId : ℕ) : Option Company :=
  Table.get Company.id db.companies companyId

def modifyCompany (db : LeadTables) (companyId : ℕ) (f : Company → Company) : LeadTables :=
  { db with companies := Table.modify Company.id db.companies companyId f }

def addIntegration (db : LeadTables) (i : CRMIntegration) : LeadTables :=
  { db with integrations := db.integrations ++ [i] }

def modifyIntegration (db : LeadTables) (companyId : ℕ)
    (f : CRMIntegration → CRMIntegration) : LeadTables :=
  { db with integrations := Table.modify CRMIntegration.companyId db.integrations companyId f }

def integration (db : LeadTables) (companyId : ℕ) : Option CRMIntegration :=
  Table.get CRMIntegration.companyId db.integrations companyId

/-! ## Tasks in ClickUp -/

/-- `_create_task` on the company as it was loaded, once ClickUp has made the task. The
status is not part of the `UPDATE` if it was `PUSHED` already. -/
def createTask (db : LeadTables) (company : Company) (task : ClickUpTask) : LeadTables :=
  let db := db.addIntegration { companyId := company.id, externalId := task.id,
                                externalUrl := task.url, externalStatus := some "suspect" }
  db.modifyCompany company.id fun c =>
    { c with status := if company.status = .pushed then c.status else .pushed,
             clickupTaskId := some task.id, clickupTaskUrl := task.url,
             clickupStatus := some "suspect" }

/-- `_link_existing`. -/
def linkExisting (db : LeadTables) (company : Company) (task : ClickUpTask) : LeadTables :=
  let db := db.addIntegration { companyId := company.id, externalId := task.id,
                                externalUrl := task.url, externalStatus := task.status }
  db.modifyCompany company.id fun c =>
    { c with clickupTaskId := some task.id, clickupTaskUrl := task.url,
             clickupStatus := task.status }

/-- `_update_task`, once ClickUp has updated the task. -/
def updateTask (db : LeadTables) (integration : CRMIntegration) (task : ClickUpTask) :
    LeadTables :=
  if task.url ≠ none ∧ task.url ≠ some "" ∧ integration.externalUrl ≠ task.url then
    let db := db.modifyIntegration integration.companyId fun i => { i with externalUrl := task.url }
    db.modifyCompany integration.companyId fun c => { c with clickupTaskUrl := task.url }
  else db

/-- `_find_existing_task_by_name`: a company of the same name may have a task. -/
def findExistingTaskByName (db : LeadTables) (company : Company) (answers : ClickUpAnswers) :
    Except String (Option ClickUpTask) :=
  let namesake := db.integrations.any fun i => i.companyId ≠ company.id ∧
    (db.company i.companyId).any fun c => c.name = company.name
  if namesake then
    match answers.getTask with
    | .error e => .error e
    | .ok (some task) => .ok (some task)
    | .ok none => answers.byName
  else answers.byName

/-- By the domain field first, then by the name. -/
def findExisting (cfg : ClickUpConfig) (db : LeadTables) (company : Company)
    (answers : ClickUpAnswers) : Except String (Option ClickUpTask) :=
  match (if cfg.domainFieldId = "" then .ok none else answers.byField) with
  | .error e => .error e
  | .ok (some task) => .ok (some task)
  | .ok none => findExistingTaskByName db company answers

/-- What `push_company` and the batch do for a company that has been loaded. -/
def pushLoaded (cfg : ClickUpConfig) (db : LeadTables) (company : Company)
    (answers : ClickUpAnswers) : Except String LeadTables :=
  match db.integration company.id with
  -- the status is not looked at: an archived company is pushed like any other
  | some integration => answers.updateTask.map fun task => db.updateTask integration task
  | none =>
    match findExisting cfg db company answers with
    | .error e => .error e
    | .ok (some task) => .ok (db.linkExisting company task)
    | .ok none => answers.createTask.map fun task => db.createTask company task

/-- `sync_status`, with the answer of `get_task`. -/
def syncStatus (db : LeadTables) (companyId : ℕ) (answer : Except String (Option ClickUpTask)) :
    Except String LeadTables :=
  match db.company companyId, db.integration companyId with
  | none, _ => .error ("Company " ++ toString companyId ++ " not found")
  | some _, none => .ok db
  | some _, some integration =>
    match answer with
    | .error e => .error e
    | .ok none => .ok db
    | .ok (some task) =>
      if task.status ≠ none ∧ task.status ≠ some "" ∧ task.status ≠ integration.externalStatus then
        let db := db.modifyIntegration companyId fun i => { i with externalStatus := task.status }
        .ok (db.modifyCompany companyId fun c => { c with clickupStatus := task.status })
      else .ok db

/-- The companies that the batch selects. -/
def qualified (cfg : ClickUpConfig) (db : LeadTables) : List Company :=
  db.companies.filter fun c => c.leadScore.any (cfg.qualifyThreshold ≤ ·) ∧
    (c.status = .qualified ∨ c.status = .pushed)

/-! ## Scoring, LinkedIn -/

def scoreCompany (db : LeadTables) (companyId : ℕ) (leadScore : ℚ) : LeadTables :=
  db.modifyCompany companyId fun c => { c with leadScore := some leadScore }

/-- The end of a LinkedIn scan. -/
def scanLinkedin (db : LeadTables) (companyId : ℕ) (now : Time) : LeadTables :=
  db.modifyCompany companyId fun c => { c with linkedinLastScrapedAt := some now }

end LeadTables

/-- A background service that does not look at the status of a company. -/
inductive BackgroundOp where
  | syncStatus (companyId : ℕ) (answer : Except String (Option ClickUpTask))
  | scoreCompany (companyId : ℕ) (leadScore : ℚ)
  | scanLinkedin (companyId : ℕ)

/-- A service that raises leaves the tables as they are. -/
def BackgroundOp.apply (now : Time) (db : LeadTables) : BackgroundOp → LeadTables
  | syncStatus companyId answer => (db.syncStatus companyId answer).toOption.getD db
  | scoreCompany companyId leadScore => db.scoreCompany companyId leadScore
  | scanLinkedin companyId => db.scanLinkedin companyId now

/-! ## Services that write the status -/

/-- A service that has loaded its companies. -/
inductive CompanyJob where
  /-- `enrich_company`, which has found the company `DISCOVERED` after its refresh. -/
  | enriching (companyId : ℕ)
  /-- `push_company` or `sync_qualified_companies`, with the companies still to come. -/
  | pushing (companies : List Company)
deriving DecidableEq, Repr

namespace CompanyJob

/-- The refresh at the end of `enrich_company`. -/
def enrichCompany (db : LeadTables) (companyId : ℕ) : Option CompanyJob :=
  if (db.company companyId).any (·.status = .discovered) then some (.enriching companyId) else none

/-- `push_company`; there is nothing to do if the company is not found. -/
def pushCompany (db : LeadTables) (companyId : ℕ) : Option CompanyJob :=
  (db.company companyId).map fun company => .pushing [company]

/-- `sync_qualified_companies`, which gets the companies in some order. -/
def syncQualifiedCompanies (order : List Company) : CompanyJob := .pushing order

/-- The job goes on to its next commit. A company whose turn raises is passed over. -/
def resume (cfg : ClickUpConfig) (db : LeadTables) (answers : ClickUpAnswers) :
    CompanyJob → LeadTables × Option CompanyJob
  | enriching companyId =>
    (db.modifyCompany companyId fun c => { c with status := .enriched }, none)
  | pushing [] => (db, none)
  | pushing (company :: companies) =>
    ((db.pushLoaded cfg company answers).toOption.getD db, some (.pushing companies))

end CompanyJob
end LeadPulse
