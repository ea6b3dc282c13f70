import LeadPulse.Crm.Provider
import LeadPulse.Dedup.Merge
import LeadPulse.Lib.Run

/-!
# Both services at work

`ClickUpService` (`services/clickup.py`), the service before the provider, which only knows
the columns of a company, and the runs of the two services on one database, one operation after
the other: pushes, batches turn by turn, `cleanup_clickup_links`, and between them what others do
to the rows and in ClickUp.
-/

namespace LeadPulse
namespace Crm

/-! ## The service before the provider -/

namespace Legacy

variable (E : Env) (cfg : ListConfig) (turn : Turn)

/-- `_create_company_task`. -/
def createTask (w : World) (company : Company) : Except ApiError World :=
  match createCompanyTask E turn cfg w.clickup company with
  | .error e => .error e
  | .ok (s, task) =>
    let leads := w.tables.modifyCompany company.id fun c =>
      { c with status := .pushed, clickupTaskId := some task.id, clickupTaskUrl := task.url,
               clickupStatus := some "suspect" }
    .ok (postSignalsAsComments E turn task.id company.id
      (((w.setClickUp s).setLeads leads).addCreated company.id task.id))

/-- `_update_company_task`. -/
def updateTask (w : World) (company : Company) (taskId : String) : Except ApiError World :=
  match updateCompanyTask turn cfg w.clickup company taskId with
  | .error e => .error e
  | .ok (s, task) =>
    let leads := if nonEmpty task.url ≠ none ∧ company.clickupTaskUrl ≠ task.url then
        w.tables.modifyCompany company.id fun c => { c with clickupTaskUrl := task.url }
      else w.tables.toLeadTables
    .ok (postSignalsAsComments E turn task.id company.id ((w.setClickUp s).setLeads leads))

/-- `push_company`; the domain is not searched for. -/
def pushCompany (w : World) (companyId : ℕ) : Except PushError World :=
  match w.tables.company companyId with
  | none => .error (.valueError ("Company " ++ toString companyId ++ " not found"))
  | some company => Except.mapError .apiError <|
    match nonEmpty company.clickupTaskId with
    | some taskId => updateTask E cfg turn w company taskId
    | none => createTask E cfg turn w company

/-- `_create_new_task`: a task with the company's domain is taken over. -/
def createNewTask (w : World) (company : Company) : Except ApiError World :=
  match findExistingTask turn cfg w.clickup company.domain with
  | .error e => .error e
  | .ok (some task) => .ok (w.setLeads (w.tables.modifyCompany company.id fun c =>
      { c with clickupTaskId := some task.id, clickupTaskUrl := task.url }))
  | .ok none => createTask E cfg turn w company

/-- A turn in the loop of `sync_qualified_companies`. -/
def syncTurn (w : World) (companyId : ℕ) : World :=
  match w.tables.company companyId with
  | none => w
  | some company => Except.toOption (match nonEmpty company.clickupTaskId with
    | some taskId => updateTask E cfg turn w company taskId
    | none => createNewTask E cfg turn w company) |>.getD w

end Legacy

/-! ## Cleanup -/

/-- `cleanup_clickup_links`: the local links go, the tasks in ClickUp stay. -/
def cleanupClickupLinks (w : World) : World :=
  { w with
    tables := { w.tables with
      companies := w.tables.companies.map fun c =>
        let c := if c.clickupTaskId ≠ none then
          { c with clickupTaskId := none, clickupTaskUrl := none, clickupStatus := none } else c
        if c.status = .pushed then { c with status := .qualified } else c
      contacts := w.tables.contacts.map fun c =>
        if c.clickupTaskId ≠ none then
          { c with clickupTaskId := none, clickupTaskUrl := none } else c
      integrations := []
      signals := w.tables.signals.map fun s =>
        if s.crmCommentedAt ≠ none then { s with crmCommentedAt := none } else s }
    posted := [] }

/-! ## Runs -/

/-- A batch with the companies that are still to come. -/
inductive Batch where
  | provider (cache : TaskNameCache) (companyIds : List ℕ)
  | legacy (companyIds : List ℕ)

structure State where
  world : World
  batch : Option Batch := none
  /-- the next id of the sequences of signals and contacts -/
  nextId : ℕ

inductive Event where
  | pushCompany (companyId : ℕ) (turn : Turn)
  /-- `sync_qualified_companies` up to its loop; reading the list may fail. -/
  | startSync (order : RowOrder Company) (error : Option ApiError)
  | legacyPush (companyId : ℕ) (turn : Turn)
  | startLegacySync (order : RowOrder Company)
  /-- the next company of the batch -/
  | nextTurn (turn : Turn)
  | cleanup
  | renameCompany (companyId : ℕ) (name : List Char)
  | mergeCompanies (primaryId duplicateId : ℕ)
  | addSignal (companyId : ℕ) (signalType : SignalType) (createdAt : Time)
  | addContact (companyId : ℕ) (name : List Char) (email : Option (List Char))
  | editTask (taskId : String) (name : List Char) (status : Option String)
      (fields : List (String × List Char))
  | deleteTask (taskId : String)

/-- A start with companies and without anything else. -/
def State.fresh (companies : List Company) : State where
  world :=
    { tables :=
        { companies := companies, integrations := [], contacts := [], signals := [],
          scrapeJobs := [], enrichmentJobs := [], auditLogs := [] }
      clickup := { tasks := [], deleted := [], comments := [], nodup := List.nodup_nil } }
  nextId := 1

/-- A statement of others; it is refused if it violates a constraint. -/
def World.statement (w : World) (t : Tables) : World :=
  match t.check with
  | .error _ => w
  | .ok db => { w with tables := db.tables }

def renamed (t : Tables) (companyId : ℕ) (name : List Char) : Tables :=
  { t with toLeadTables := t.modifyCompany companyId fun c => { c with name := name } }

def withSignal (t : Tables) (s : SignalRow) : Tables := { t with signals := t.signals ++ [s] }

def withContact (t : Tables) (c : Contact) : Tables := { t with contacts := t.contacts ++ [c] }

section

variable (E : Env) (cfg : Config) (legacy : ListConfig)

/-- The next turn of a batch. -/
def batchTurn (turn : Turn) (s : State) : Option State :=
  match s.batch with
  | none => none
  | some (.provider _ []) => some { s with batch := none }
  | some (.legacy []) => some { s with batch := none }
  | some (.provider cache (k :: ks)) =>
    some { s with world := syncTurn E cfg turn cache s.world k, batch := some (.provider cache ks) }
  | some (.legacy (k :: ks)) =>
    some { s with world := Legacy.syncTurn E legacy turn s.world k, batch := some (.legacy ks) }

/-- An operation that is not under way together with a batch. -/
def operation (s : State) : Event → Option State
  | .pushCompany companyId turn =>
    some { s with world := pushCaught E cfg turn s.world companyId }
  | .startSync order error =>
    match error with
    | some _ => some s
    | none => some { s with batch := some (.provider
        (s.world.clickup.buildTaskNameCache E.unicode cfg.listId)
        (qualifiedIds cfg.toListConfig order s.world.tables)) }
  | .legacyPush companyId turn =>
    some { s with
      world := (Legacy.pushCompany E legacy turn s.world companyId).toOption.getD s.world }
  | .startLegacySync order =>
    some { s with batch := some (.legacy (qualifiedIds legacy order s.world.tables)) }
  | .nextTurn _ => none
  | .cleanup => some { s with world := cleanupClickupLinks s.world }
  | .renameCompany companyId name =>
    some { s with world := s.world.statement (renamed s.world.tables companyId name) }
  | .mergeCompanies primaryId duplicateId =>
    if h : s.world.tables.Constraints then
      match Dedup.mergeCompanies E.unicode E.contactOrder E.signalOrder primaryId duplicateId
          ⟨s.world.tables, h⟩ with
      | .error _ => some s
      | .ok db => some { s with world := { s.world with tables := db.tables } }
    else none
  | .addSignal companyId signalType createdAt =>
    some { s with
      world := s.world.statement (withSignal s.world.tables
        { id := s.nextId, companyId := companyId, signalType := signalType,
          createdAt := createdAt })
      nextId := s.nextId + 1 }
  | .addContact companyId name email =>
    some { s with
      world := s.world.statement (withContact s.world.tables
        { id := s.nextId, companyId := companyId, name := name, email := email })
      nextId := s.nextId + 1 }
  | .editTask taskId name status fields =>
    some { s with world := s.world.setClickUp (s.world.clickup.editTask taskId name status fields) }
  | .deleteTask taskId =>
    some { s with world := s.world.setClickUp (s.world.clickup.deleteTask taskId) }

def step (s : State) (e : Event) : Option State :=
  match e, s.batch with
  | .nextTurn turn, _ => batchTurn E cfg legacy turn s
  | e, none => operation E cfg legacy s e
  | _, some _ => none

end

/-! ## For small runs -/

/-- Without a domain field and without Person tasks. -/
def Config.plain : Config where
  listId := "companies"
  listId_ne := by decide

def qualifiedCompany (id : ℕ) (name : String) : Company :=
  { id := id, name := name.toList, domain := "example.com".toList, status := .qualified,
    leadScore := some 60 }

end Crm
end LeadPulse
