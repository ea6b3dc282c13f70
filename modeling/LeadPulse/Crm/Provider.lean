import LeadPulse.Crm.ClickUp

/-!
# The ClickUp provider

`ClickUpCRMProvider` (`services/crm/clickup_provider.py`): a company is pushed to ClickUp
alone or in the batch of all qualified companies, with its signals as comments and its
contacts as Person tasks. A call that raises before anything has happened leaves everything
as it was; what follows the first commit of a turn catches its errors itself.
-/

namespace LeadPulse
namespace Crm

/-! ## Configuration -/

/-- Neither service is built without a list of companies. -/
structure ListConfig extends ClickUpConfig where
  listId : String
  listId_ne : listId ≠ ""

structure Config extends ListConfig where
  personListId : String := ""
  personEmailFieldId : String := ""
  personPhoneFieldId : String := ""
  personLinkedinFieldId : String := ""
  personSurnameFieldId : String := ""
  personLastnameFieldId : String := ""
  personRoleFieldId : String := ""
  contactRelationshipFieldId : String := ""
  companyContactFieldId : String := ""

/-- What the code does not decide; the orders are those of queries without `ORDER BY`. -/
structure Env where
  unicode : Unicode
  server : Server
  integrationOrder : RowOrder CRMIntegration
  contactOrder : RowOrder Contact
  signalOrder : RowOrder SignalRow

/-- Rows come as they are stored. -/
def Env.plain : Env where
  unicode := Unicode.ascii
  server := Server.counting
  integrationOrder := .asStored _
  contactOrder := .asStored _
  signalOrder := .asStored _

/-- What the turn of a company meets: the time, and which of its calls fail. -/
structure Turn where
  now : Time
  faults : Faults := noFaults

abbrev TaskNameCache := List (List Char × StoredTask)

/-! ## The world -/

/-- The database and ClickUp, with what the services have done there. -/
structure World where
  tables : Tables
  clickup : ClickUp
  /-- the tasks created for companies -/
  created : List (ℕ × String) := []
  /-- the signals posted as comments since the last cleanup -/
  posted : List ℕ := []
deriving DecidableEq

/-- A text that is not empty. -/
def nonEmpty (s : Option String) : Option String := s.filter (· ≠ "")

namespace World

def setLeads (w : World) (leads : LeadTables) : World :=
  { w with tables := { w.tables with toLeadTables := leads } }

def setClickUp (w : World) (clickup : ClickUp) : World := { w with clickup := clickup }

/-- ClickUp has created a task for the company. -/
def addCreated (w : World) (companyId : ℕ) (taskId : String) : World :=
  { w with created := (companyId, taskId) :: w.created }

/-- The comment about a signal is in ClickUp, and its row is marked. -/
def markPosted (w : World) (signalId : ℕ) (now : Time) (clickup : ClickUp) : World :=
  { w with
    clickup := clickup
    posted := signalId :: w.posted
    tables := { w.tables with signals := w.tables.signals.map fun s =>
      if s.id = signalId then { s with crmCommentedAt := some now } else s } }

/-- The columns of a contact that its turn writes. -/
def saveContact (w : World) (contact : Contact) (clickup : ClickUp) : World :=
  { w with
    clickup := clickup
    tables := { w.tables with contacts := w.tables.contacts.map fun c =>
      if c.id = contact.id then { c with clickupTaskId := contact.clickupTaskId,
                                         clickupTaskUrl := contact.clickupTaskUrl } else c } }

end World

section

variable (E : Env) (cfg : Config) (turn : Turn)

/-! ## Signals -/

def getUncommentedSignals (t : Tables) (companyId : ℕ) : List SignalRow :=
  (E.signalOrder.arrange (t.signals.filter fun s =>
    s.companyId = companyId ∧ s.crmCommentedAt = none ∧ s.signalType ≠ .noSignal)).insertionSort
      fun a b => a.createdAt ≤ b.createdAt

/-- A signal in the loop of `_post_signals_as_comments`. -/
def postSignal (taskId : String) (w : World) (signal : SignalRow) : World :=
  match attempt turn.faults (.addComment signal.id) (w.clickup.addComment taskId signal.id) with
  | .error _ => w
  | .ok clickup => w.markPosted signal.id turn.now clickup

def postSignalsAsComments (taskId : String) (companyId : ℕ) (w : World) : World :=
  (getUncommentedSignals E w.tables companyId).foldl (postSignal turn taskId) w

/-! ## Contacts -/

/-- An entry of the custom fields, for a field that is configured and a value. -/
def customField (fieldId : String) (value : Option (List Char)) : Option (String × List Char) :=
  match value with
  | none => none
  | some v => if fieldId ≠ "" ∧ v ≠ [] then some (fieldId, v) else none

/-- The name is split at its first space. -/
def buildPersonCustomFields (contact : Contact) : List (String × List Char) :=
  [customField cfg.personEmailFieldId contact.email,
    customField cfg.personPhoneFieldId contact.phone,
    customField cfg.personLinkedinFieldId contact.linkedinUrl,
    customField cfg.personRoleFieldId contact.title,
    customField cfg.personSurnameFieldId (some (PyStr.upTo ' ' contact.name)),
    customField cfg.personLastnameFieldId (some (PyStr.past ' ' contact.name))].reduceOption

/-- Where the turn of a contact has got to: the contact as it will be written, and whether an
error ends the turn. -/
structure PersonTurn where
  clickup : ClickUp
  contact : Contact
  raised : Bool := false

def setTask (contact : Contact) (task : ClickUpTask) : Contact :=
  { contact with clickupTaskId := some task.id, clickupTaskUrl := task.url }

def createPersonTask (s : ClickUp) (contact : Contact) : PersonTurn :=
  match attempt turn.faults (.createPerson contact.id)
      (.ok (s.createTask E.server cfg.personListId contact.name "prospect"
        (buildPersonCustomFields cfg contact))) with
  | .error _ => { clickup := s, contact := contact, raised := true }
  | .ok (s, task) => { clickup := s, contact := setTask contact task }

/-- If the task is gone in ClickUp, its id is cleared and a new task is created. -/
def updatePersonTask (s : ClickUp) (contact : Contact) (taskId : String) : PersonTurn :=
  match attempt turn.faults (.updatePerson contact.id)
      (s.updateTask taskId (buildPersonCustomFields cfg contact)) with
  | .ok (s, task) =>
    { clickup := s
      contact := if nonEmpty task.url ≠ none ∧ contact.clickupTaskUrl ≠ task.url then
          { contact with clickupTaskUrl := task.url } else contact }
  | .error .notFound =>
    createPersonTask E cfg turn s { contact with clickupTaskId := none, clickupTaskUrl := none }
  | .error _ => { clickup := s, contact := contact, raised := true }

/-- By the email, if there is one. -/
def findExistingPerson (s : ClickUp) (contact : Contact) : Except ApiError (Option ClickUpTask) :=
  match customField cfg.personEmailFieldId contact.email with
  | none => .ok none
  | some (fieldId, email) => attempt turn.faults (.findPerson contact.id)
      (.ok (s.findTaskByCustomField cfg.personListId fieldId email))

/-- The first part of a contact's turn in `_push_contacts`. -/
def savePersonTask (s : ClickUp) (contact : Contact) : PersonTurn :=
  match nonEmpty contact.clickupTaskId with
  | some taskId => updatePersonTask E cfg turn s contact taskId
  | none =>
    match findExistingPerson cfg turn s contact with
    | .error _ => { clickup := s, contact := contact, raised := true }
    | .ok (some task) => { clickup := s, contact := setTask contact task }
    | .ok none => createPersonTask E cfg turn s contact

/-- A value for a relationship field, if the field is configured; best effort. -/
def relate (s : ClickUp) (call : Call) (taskId fieldId other : String) : ClickUp :=
  if fieldId = "" then s
  else match attempt turn.faults call (s.setCustomFieldValue taskId fieldId other) with
    | .error _ => s
    | .ok s => s

/-- In both directions. -/
def linkPersonToCompany (s : ClickUp) (contactId : ℕ) (personTaskId companyTaskId : String) :
    ClickUp :=
  let s := relate turn s (.linkPerson contactId) personTaskId cfg.contactRelationshipFieldId
    companyTaskId
  relate turn s (.linkCompany contactId) companyTaskId cfg.companyContactFieldId personTaskId

/-- The links are made only for a task that the contact did not have before. -/
def linkIfNew (companyTaskId : String) (old : Contact) (p : PersonTurn) : ClickUp :=
  match nonEmpty p.contact.clickupTaskId with
  | none => p.clickup
  | some taskId =>
    if p.raised = false ∧ some taskId ≠ old.clickupTaskId then
      linkPersonToCompany cfg turn p.clickup old.id taskId companyTaskId
    else p.clickup

/-- A contact in the loop of `_push_contacts`. -/
def pushContact (companyTaskId : String) (w : World) (contact : Contact) : World :=
  let p := savePersonTask E cfg turn w.clickup contact
  w.saveContact p.contact (linkIfNew cfg turn companyTaskId contact p)

def pushContacts (companyTaskId : String) (companyId : ℕ) (w : World) : World :=
  if cfg.personListId = "" then w
  else (E.contactOrder.arrange (w.tables.contacts.filter fun c => c.companyId = companyId)).foldl
    (pushContact E cfg turn companyTaskId) w

/-! ## Companies -/

def buildCustomFields (cfg : ListConfig) (company : Company) : List (String × List Char) :=
  if cfg.domainFieldId = "" then [] else [(cfg.domainFieldId, company.domain)]

/-- By the domain field, if it is configured. -/
def findExistingTask (cfg : ListConfig) (s : ClickUp) (domain : List Char) :
    Except ApiError (Option ClickUpTask) :=
  if cfg.domainFieldId = "" then .ok none
  else attempt turn.faults .findTaskByCustomField
    (.ok (s.findTaskByCustomField cfg.listId cfg.domainFieldId domain))

/-- The call with which both services create the task of a company. -/
def createCompanyTask (cfg : ListConfig) (s : ClickUp) (company : Company) :
    Except ApiError (ClickUp × ClickUpTask) :=
  attempt turn.faults .createTask (.ok (s.createTask E.server cfg.listId company.name "suspect"
    (buildCustomFields cfg company)))

/-- The call with which both services update it. -/
def updateCompanyTask (cfg : ListConfig) (s : ClickUp) (company : Company) (taskId : String) :
    Except ApiError (ClickUp × ClickUpTask) :=
  attempt turn.faults .updateTask (s.updateTask taskId (buildCustomFields cfg company))

/-- The integration of another company with the same name. -/
def namesake (t : Tables) (company : Company) : Option CRMIntegration :=
  (E.integrationOrder.arrange (t.integrations.filter fun i => i.companyId ≠ company.id ∧
    (t.company i.companyId).any fun c => c.name = company.name)).head?

/-- The cache, or else the list in ClickUp. -/
def searchName (cache : Option TaskNameCache) (s : ClickUp) (name : List Char) :
    Except ApiError (Option ClickUpTask) :=
  match cache with
  | some cache => .ok ((cache.lookup (E.unicode.lower name)).map (·.parse))
  | none => attempt turn.faults .findTaskByName (.ok (s.findTaskByName E.unicode cfg.listId name))

/-- `_find_existing_task_by_name`. -/
def findExistingTaskByName (cache : Option TaskNameCache) (w : World) (company : Company) :
    Except ApiError (Option ClickUpTask) :=
  match namesake E w.tables company with
  | none => searchName E cfg turn cache w.clickup company.name
  | some integration =>
    match attempt turn.faults .getTask (w.clickup.getTask integration.externalId) with
    | .ok task => .ok (some task)
    -- the task has been deleted in ClickUp
    | .error .notFound => searchName E cfg turn cache w.clickup company.name
    | .error e => .error e

/-- By the domain first, then by the name. -/
def findExisting (cache : Option TaskNameCache) (w : World) (company : Company) :
    Except ApiError (Option ClickUpTask) :=
  match findExistingTask turn cfg.toListConfig w.clickup company.domain with
  | .error e => .error e
  | .ok (some task) => .ok (some task)
  | .ok none => findExistingTaskByName E cfg turn cache w company

/-- `_update_task`. -/
def updateTask (w : World) (company : Company) (integration : CRMIntegration) :
    Except ApiError World :=
  match updateCompanyTask turn cfg.toListConfig w.clickup company integration.externalId with
  | .error e => .error e
  | .ok (s, task) =>
    let w := (w.setClickUp s).setLeads (w.tables.updateTask integration task)
    let w := postSignalsAsComments E turn task.id company.id w
    .ok (pushContacts E cfg turn integration.externalId company.id w)

/-- `_create_task`. -/
def createTask (w : World) (company : Company) : Except ApiError World :=
  match createCompanyTask E turn cfg.toListConfig w.clickup company with
  | .error e => .error e
  | .ok (s, task) =>
    let w := ((w.setClickUp s).setLeads (w.tables.createTask company task)).addCreated
      company.id task.id
    let w := postSignalsAsComments E turn task.id company.id w
    .ok (pushContacts E cfg turn task.id company.id w)

/-- `push_company` for a company that has been loaded, and the body of the batch's loop. -/
def pushLoaded (cache : Option TaskNameCache) (w : World) (company : Company) :
    Except ApiError World :=
  match w.tables.integration company.id with
  | some integration => updateTask E cfg turn w company integration
  | none =>
    match findExisting E cfg turn cache w company with
    | .error e => .error e
    -- the signals and contacts of the company wait for its next push
    | .ok (some task) => .ok (w.setLeads (w.tables.linkExisting company task))
    | .ok none => createTask E cfg turn w company

inductive PushError where
  | valueError (detail : String)
  | apiError (e : ApiError)
deriving DecidableEq, Repr

def pushCompany (w : World) (companyId : ℕ) : Except PushError World :=
  match w.tables.company companyId with
  | none => .error (.valueError ("Company " ++ toString companyId ++ " not found"))
  | some company => (pushLoaded E cfg turn none w company).mapError .apiError

/-- A turn in the loop of `sync_qualified_companies`, which catches every error. Nobody else
writes the company's row since the batch has loaded it. -/
def syncTurn (cache : TaskNameCache) (w : World) (companyId : ℕ) : World :=
  match w.tables.company companyId with
  | none => w
  | some company => (pushLoaded E cfg turn (some cache) w company).toOption.getD w

/-- `push_company` where the caller catches every error. -/
def pushCaught (w : World) (companyId : ℕ) : World :=
  (pushCompany E cfg turn w companyId).toOption.getD w

end

/-- The companies of the batch, in the order in which the query returns them. -/
def qualifiedIds (cfg : ListConfig) (order : RowOrder Company) (t : Tables) : List ℕ :=
  (order.arrange (t.qualified cfg.toClickUpConfig)).map (·.id)

/-- `sync_qualified_companies`, at one time and with all calls answered. -/
def syncQualifiedCompanies (E : Env) (cfg : Config) (order : RowOrder Company) (now : Time)
    (w : World) : World :=
  let cache := w.clickup.buildTaskNameCache E.unicode cfg.listId
  (qualifiedIds cfg.toListConfig order w.tables).foldl (syncTurn E cfg { now := now } cache) w

end Crm
end LeadPulse
