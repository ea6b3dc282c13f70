import LeadPulse.Lib.Run
import LeadPulse.Pipeline.Background
import LeadPulse.Signals.Analysis
import LeadPulse.Signals.Orchestrator
import Mathlib.Logic.Function.Basic

/-!
# The signal pipeline

The database together with the workers that run on it: analyses and executions of signals
in any number and interleaving, the enrichment endpoints, the background services, the daily
digest, and the users who archive companies. One step takes one worker from one await to the
next, so what a worker has loaded may be out of date when it commits.

A commit is atomic and runs at READ COMMITTED: it changes the columns that the worker has
changed, in the rows as they are by then. `SELECT ... FOR UPDATE` takes the lock on the row
of a company, which is held until the commit or until the worker dies.

Besides the tables, a `World` keeps a history of what has left the system or is of interest
in retrospect: enrichments, deliveries, executions, digests.
-/

namespace LeadPulse

structure PipelineConfig where
  maxEnrichmentsPerDay : ℕ := 100
  clickUp : ClickUpConfig := {}
deriving DecidableEq, Repr

/-- An enrichment of a company that was dispatched to a worker or performed; `signalId` is
the signal whose execution has dispatched it, and `hasJob` says whether a row of
`enrichment_jobs` was created with it. -/
structure Enrichment where
  companyId : ℕ
  signalId : Option ℕ := none
  hasJob : Bool := false
  time : Time
deriving DecidableEq, Repr

structure World where
  now : Time
  leads : LeadTables
  signals : List Signal
  auditLogs : List AuditLog
  enrichmentJobs : List EnrichmentJob
  /-- The analyses, executions and company jobs in flight, by the number of their worker. -/
  analyses : ℕ → Option Analysis
  dispatches : ℕ → Option Dispatch
  companyJobs : ℕ → Option CompanyJob
  /-- The worker that holds the lock on the row of a company. -/
  locks : ℕ → Option ℕ
  enrichments : List Enrichment
  /-- The consolidated messages recorded as delivered: company and `slack_notified_at`. -/
  deliveries : List (ℕ × Time)
  /-- The executions that have been committed: signal and action. -/
  executions : List (ℕ × SignalAction)
  /-- The companies that have been archived. -/
  archived : List ℕ
  /-- The signals that wait for the next digest, and those that it has left out. -/
  awaiting : List ℕ
  missed : List ℕ

inductive Event where
  | tick (d : Time)
  | addCompany (c : Company)
  /-- A user sets the status of a company. -/
  | setStatus (companyId : ℕ) (status : CompanyStatus)
  | addSignal (id companyId : ℕ) (signalType : SignalType)
      (rawContentHash rawMarkdown : Option String)
  /-- An endpoint other than `trigger_enrich` creates a job. -/
  | addJob (companyId : ℕ)
  | triggerEnrich (companyId : ℕ) (delay : Except String Unit)
  /-- `order` is the order in which the database returns the discovered companies. -/
  | enrichAllDiscovered (order : List ℕ)
  | background (op : BackgroundOp)
  /-- Worker `i` loads a company, or the qualified ones in some order, for a job on them. -/
  | enrichCompany (i companyId : ℕ)
  | pushCompany (i companyId : ℕ)
  | syncQualified (i : ℕ) (order : List Company)
  | resume (i : ℕ) (answers : ClickUpAnswers)
  | cancel (i : ℕ)
  | digest
  /-- Worker `i` loads a signal to analyse it, and goes on from stage to stage. -/
  | analyze (i signalId : ℕ)
  | check (i : ℕ) (llm : Bool)
  | classify (i : ℕ) (answer : Except String Classification)
  | score (i : ℕ) (answer : Except String ScoreResult)
  | conclude (i : ℕ)
  | abandon (i : ℕ)
  /-- Worker `i` loads a signal to execute its action, and goes on to the commit. -/
  | execute (i signalId : ℕ) (slack : Bool)
  | enrich (i : ℕ) (delay : Except String Unit)
  | lock (i : ℕ)
  | collect (i : ℕ)
  | deliver (i : ℕ) (result : Except String Bool)
  | finish (i : ℕ)
  /-- Worker `i` dies, or its commit fails. -/
  | crash (i : ℕ)

/-- The signals that `send_daily_digest` loads, the newest first. -/
def digestSignals (signals : List Signal) (now : Time) : List Signal :=
  (signals.filter fun s => now - hours 24 ≤ s.createdAt ∧ s.isProcessed).mergeSort
    fun a b => b.createdAt ≤ a.createdAt

namespace World

/-- An empty database at time `t`. -/
def init (t : Time) : World where
  now := t
  leads := { companies := [], integrations := [] }
  signals := []
  auditLogs := []
  enrichmentJobs := []
  analyses := fun _ => none
  dispatches := fun _ => none
  companyJobs := fun _ => none
  locks := fun _ => none
  enrichments := []
  deliveries := []
  executions := []
  archived := []
  awaiting := []
  missed := []

def signal (w : World) (signalId : ℕ) : Option Signal := Table.get Signal.id w.signals signalId

def company (w : World) (companyId : ℕ) : Option Company := w.leads.company companyId

/-- The locks without those of worker `i`. -/
def release (w : World) (i : ℕ) : ℕ → Option ℕ :=
  fun c => if w.locks c = some i then none else w.locks c

/-- Worker `i` may write the row of the company. -/
def mayWrite (w : World) (i companyId : ℕ) : Prop :=
  w.locks companyId = none ∨ w.locks companyId = some i

instance (w : World) (i companyId : ℕ) : Decidable (w.mayWrite i companyId) :=
  inferInstanceAs (Decidable (_ ∨ _))

/-! ## Analyses -/

/-- Analysis `i` goes on to its next await or comes to an end. -/
def proceed (w : World) (i : ℕ) : Outcome → World
  | .running a => { w with analyses := Function.update w.analyses i (some a) }
  | .returned _ | .raised => { w with analyses := Function.update w.analyses i none }

/-- The commit of a verdict. A signal for the digest waits for it from now on. -/
def commitVerdict (w : World) (i : ℕ) (loaded verdict : Signal) : World :=
  { w with
    signals := Table.modify Signal.id w.signals loaded.id (Signal.flush loaded verdict)
    analyses := Function.update w.analyses i none
    awaiting := if verdict.actionTaken = some .notifyDigest then w.awaiting ++ [loaded.id]
      else w.awaiting }

/-! ## Executions -/

def setDispatch (w : World) (i : ℕ) (d : Dispatch) : World :=
  { w with dispatches := Function.update w.dispatches i (some d) }

/-- The count, the dispatch of `enrich_company`, and the rest of `_dispatch_enrich_further`. -/
def enrichStep (cfg : PipelineConfig) (w : World) (i : ℕ) (s : Signal) (company : Option Company)
    (delay : Except String Unit) : World :=
  let limit := cfg.maxEnrichmentsPerDay
  let count := jobsToday w.enrichmentJobs w.now
  -- the task has no job, so the next count does not see it
  let queued : List Enrichment :=
    if count < limit ∧ delay.isOk then
      [{ companyId := s.companyId, signalId := some s.id, time := w.now }]
    else []
  { w.setDispatch i (.committing (Dispatch.enrich limit count s company delay)) with
    enrichments := w.enrichments ++ queued }

/-- The row of the company is read under its lock; in the cooldown nothing is sent. -/
def lockStep (w : World) (i : ℕ) (s : Signal) : Option World :=
  match w.company s.companyId with
  | none => some (w.setDispatch i (.committing { signal := s }))
  | some c =>
    -- `FOR UPDATE` waits for the worker that holds the lock
    if w.locks s.companyId ≠ none then none
    else
      let w := { w with locks := Function.update w.locks s.companyId (some i) }
      if Dispatch.coolingDown c w.now then
        -- "the daily digest covers them"
        some { w.setDispatch i (.committing { signal := s }) with awaiting := w.awaiting ++ [s.id] }
      else some (w.setDispatch i (.collecting s c))

/-- The row of a company after the commit of an execution. -/
def finishCompany (e : Execution) (c : Company) : Company :=
  { c with status := e.companyStatus.getD c.status,
           slackNotifiedAt := e.slackNotifiedAt.or c.slackNotifiedAt }

/-- The commit of an execution, which gives the lock back. -/
def commitExecution (w : World) (i : ℕ) (e : Execution) : World :=
  { w with
    signals := Table.modify Signal.id w.signals e.signal.id fun s =>
      { s with actionExecutedAt := some w.now }
    auditLogs := w.auditLogs ++ e.audit.toList
    leads := w.leads.modifyCompany e.signal.companyId (finishCompany e)
    dispatches := Function.update w.dispatches i none
    locks := w.release i
    deliveries := w.deliveries ++ e.slackNotifiedAt.toList.map fun t => (e.signal.companyId, t)
    executions := w.executions ++ e.signal.actionTaken.toList.map fun a => (e.signal.id, a) }

/-- The execution writes the row of its company. -/
def writesCompany (e : Execution) : Prop :=
  e.companyStatus ≠ none ∨ e.slackNotifiedAt ≠ none

instance (e : Execution) : Decidable (writesCompany e) := inferInstanceAs (Decidable (_ ∨ _))

/-! ## Jobs, enrichment endpoints and the digest -/

def setJob (w : World) (i : ℕ) (job : Option CompanyJob) : World :=
  { w with companyJobs := Function.update w.companyJobs i job }

/-- `trigger_enrich`: a job is created before the task is dispatched. -/
def triggerEnrich (cfg : PipelineConfig) (w : World) (companyId : ℕ)
    (delay : Except String Unit) : World :=
  match w.company companyId with
  | none => w
  | some c =>
    if c.status = .archived ∨ cfg.maxEnrichmentsPerDay ≤ jobsToday w.enrichmentJobs w.now then w
    else
      { w with
        enrichmentJobs := w.enrichmentJobs ++ [{ companyId := companyId, createdAt := w.now }]
        enrichments := w.enrichments ++ if delay.isOk then
          [{ companyId := companyId, hasJob := true, time := w.now }] else [] }

/-- The companies that a batch enriches: as many as the budget of the day leaves. -/
def enrichBatch (cfg : PipelineConfig) (w : World) (order : List ℕ) : List Enrichment :=
  (order.take (cfg.maxEnrichmentsPerDay - jobsToday w.enrichmentJobs w.now)).map fun companyId =>
    { companyId := companyId, time := w.now }

/-- The ids of the discovered companies. -/
def discoveredIds (w : World) : List ℕ :=
  (w.leads.companies.filter fun c => c.status = .discovered).map (·.id)

/-- A digest; the history records which of the signals that waited for it are not in it. -/
def sendDigest (w : World) : World :=
  { w with
    awaiting := []
    missed := w.missed ++ w.awaiting.filter fun id =>
      id ∉ (digestSignals w.signals w.now).map (·.id) }

/-! ## The step function -/

def step (cfg : PipelineConfig) (w : World) : Event → Option World
  | .tick d => if 0 ≤ d then some { w with now := w.now + d } else none
  | .addCompany c =>
    if w.company c.id = none ∧ c.slackNotifiedAt = none then
      some { w with
        leads := { w.leads with companies := w.leads.companies ++ [c] }
        archived := if c.status = .archived then w.archived ++ [c.id] else w.archived }
    else none
  | .setStatus companyId status =>
    if (w.company companyId).any (·.status ≠ .archived) then
      some { w with
        leads := w.leads.modifyCompany companyId fun c => { c with status := status }
        archived := if status = .archived then w.archived ++ [companyId] else w.archived }
    else none
  | .addSignal id companyId signalType rawContentHash rawMarkdown =>
    if w.signal id = none then
      some { w with signals := w.signals ++ [{
        id := id, companyId := companyId, signalType := signalType,
        rawContentHash := rawContentHash, rawMarkdown := rawMarkdown, createdAt := w.now }] }
    else none
  | .addJob companyId =>
    some { w with
      enrichmentJobs := w.enrichmentJobs ++ [{ companyId := companyId, createdAt := w.now }] }
  | .triggerEnrich companyId delay => some (w.triggerEnrich cfg companyId delay)
  | .enrichAllDiscovered order =>
    if order.Perm w.discoveredIds then
      some { w with enrichments := w.enrichments ++ w.enrichBatch cfg order }
    else none
  | .background op => some { w with leads := op.apply w.now w.leads }
  | .enrichCompany i companyId =>
    if w.companyJobs i = none then
      some (w.setJob i (CompanyJob.enrichCompany w.leads companyId)) else none
  | .pushCompany i companyId =>
    if w.companyJobs i = none then
      some (w.setJob i (CompanyJob.pushCompany w.leads companyId)) else none
  | .syncQualified i order =>
    if w.companyJobs i = none ∧ order.Perm (w.leads.qualified cfg.clickUp) then
      some (w.setJob i (some (CompanyJob.syncQualifiedCompanies order))) else none
  | .resume i answers =>
    match w.companyJobs i with
    | some job =>
      let (leads, next) := job.resume cfg.clickUp w.leads answers
      some { w.setJob i next with leads := leads }
    | none => none
  | .cancel i => some (w.setJob i none)
  | .digest => some w.sendDigest
  | .analyze i signalId =>
    if w.analyses i = none then some (w.proceed i (Analysis.load w.signals signalId)) else none
  | .check i llm =>
    match w.analyses i with
    | some (.checking s) => some (w.proceed i (Analysis.check w.signals llm s))
    | _ => none
  | .classify i answer =>
    match w.analyses i with
    | some (.classifying s) => some (w.proceed i (Analysis.classify s answer))
    | _ => none
  | .score i answer =>
    match w.analyses i with
    | some (.scoring s signalType) => some (w.proceed i (Analysis.score s signalType answer))
    | _ => none
  | .conclude i =>
    match w.analyses i with
    | some (.committing loaded verdict) => some (w.commitVerdict i loaded verdict)
    | _ => none
  | .abandon i => some { w with analyses := Function.update w.analyses i none }
  | .execute i signalId slack =>
    if w.dispatches i = none then
      match Dispatch.load w.signals w.leads.companies slack signalId with
      | .ok d => some (w.setDispatch i d)  -- a redelivered task starts here, too
      | .error _ => some w
    else none
  | .enrich i delay =>
    match w.dispatches i with
    | some (.counting s company) => some (w.enrichStep cfg i s company delay)
    | _ => none
  | .lock i =>
    match w.dispatches i with
    | some (.locking s) => w.lockStep i s
    | _ => none
  | .collect i =>
    match w.dispatches i with
    | some (.collecting s c) =>
      some (w.setDispatch i (.sending s c (Dispatch.pendingSignals w.signals s)))
    | _ => none
  | .deliver i result =>
    match w.dispatches i with
    | some (.sending s _ _) =>
      some (w.setDispatch i (.committing (Dispatch.deliver s w.now result)))
    | _ => none
  | .finish i =>
    match w.dispatches i with
    | some (.committing e) =>
      -- an `UPDATE` of a locked row waits as well
      if writesCompany e → w.mayWrite i e.signal.companyId then some (w.commitExecution i e)
      else none
    | _ => none
  | .crash i =>
    some { w with dispatches := Function.update w.dispatches i none, locks := w.release i }

end World

/-- The steps from a new signal to its verdict, with the given score. -/
def analysedSignal (signalId companyId : ℕ) (score : ℤ) : List Event :=
  [.addSignal signalId companyId .other none (some (String.ofList (List.replicate 60 'x'))),
   .analyze 0 signalId, .check 0 true,
   .classify 0 (.ok { signalType := "expansion", reasoning := "" }),
   .score 0 (.ok { relevanceScore := score, reasoning := "" }), .conclude 0]

end LeadPulse
