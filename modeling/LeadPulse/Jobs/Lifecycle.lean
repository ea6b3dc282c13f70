import LeadPulse.Lib.Slots
import LeadPulse.Lib.Table
import LeadPulse.Models

/-!
# Enrichment jobs

The rows of `enrichment_jobs` and everything that writes them: the endpoints that create a job
and queue its task (`api/v1/companies.py`), the attempts of the tasks `enrich_company` and
`find_company_contacts`, whose `_update_job` is the same, and `_cleanup_stale_jobs`
(`tasks/enrichment.py`).

Each of them loads rows in a session and commits later. A commit writes the columns that have
been changed in the session to the row as it is then. A message stays in the queue until it is
acknowledged, so it can be delivered again; an attempt that raises a connection, timeout or
OS error is queued again up to three times.
-/

namespace LeadPulse
namespace Jobs

inductive EnrichmentJobStatus where
  | pending
  | running
  | completed
  | failed
deriving DecidableEq, Repr

/-- A row of `enrichment_jobs`. -/
structure Job where
  id : ℕ
  companyId : ℕ
  status : EnrichmentJobStatus := .pending
  startedAt : Option Time := none
  completedAt : Option Time := none
  resultSummary : Option (List Char) := none
  errorMessage : Option (List Char) := none
  createdAt : Time
deriving DecidableEq, Repr

/-- The job has reached `COMPLETED` or `FAILED`. -/
def Job.Terminal (j : Job) : Prop := j.status = .completed ∨ j.status = .failed

instance (j : Job) : Decidable j.Terminal :=
  inferInstanceAs (Decidable (_ ∨ _))

/-- The `UPDATE` of a session that has loaded the row as `loaded` and changed it to `modified`,
on the row as it is now. -/
def Job.flush (loaded modified row : Job) : Job :=
  { row with
    status := pick (·.status)
    startedAt := pick (·.startedAt)
    completedAt := pick (·.completedAt)
    resultSummary := pick (·.resultSummary)
    errorMessage := pick (·.errorMessage) }
where
  pick {β : Type} [DecidableEq β] (field : Job → β) : β :=
    if field modified = field loaded then field row else field modified

/-- The arguments of a call of `_update_job`. -/
inductive JobUpdate where
  | running
  | completed (summary : List Char)
  /-- With whether the exception is one that is retried. -/
  | failed (error : List Char) (retryable : Bool)
deriving DecidableEq, Repr

/-- What `_update_job` does to the row it has loaded. -/
def JobUpdate.apply (now : Time) (job : Job) : JobUpdate → Job
  | running => { job with status := .running, startedAt := some now }
  | completed summary =>
    { job with status := .completed, completedAt := some now,
               resultSummary := some (summary.take 500) }
  | failed error _ =>
    { job with status := .failed, completedAt := some now, errorMessage := some (error.take 500) }

/-- A message of the queue. -/
structure Task where
  jobId : ℕ
  retries : ℕ
deriving DecidableEq, Repr

def maxRetries : ℕ := 3

/-- `_PENDING_STALE_AFTER`, ten minutes. -/
def pendingStaleAfter : Time := 600000000

/-- `_RUNNING_STALE_AFTER`, 420 seconds. -/
def runningStaleAfter : Time := 420000000

/-- What the cleanup makes of a `PENDING` job. -/
def lostJob (now : Time) (job : Job) : Job :=
  { job with status := .failed, completedAt := some now,
             errorMessage := some "Task lost: worker restart or queue overflow".toList }

/-- What the cleanup makes of a `RUNNING` job. -/
def timedOutJob (now : Time) (job : Job) : Job :=
  { job with status := .failed, completedAt := some now,
             errorMessage := some
               "Task timed out: no completion recorded within expected window".toList }

/-- What an endpoint makes of its job when the task, or the pipeline it is part of, cannot be
queued. -/
def undispatchedJob (pipeline : Bool) (job : Job) : Job :=
  { job with status := .failed,
             errorMessage := some (if pipeline then "Failed to dispatch pipeline".toList
               else "Failed to dispatch task".toList) }

/-- What a process that works on jobs is doing. -/
inductive Worker where
  /-- An endpoint has committed its new job and calls `delay`. -/
  | dispatching (job : Job)
  | undispatched (pipeline : Bool) (job : Job)
  /-- An attempt is about to load its job for the update. -/
  | updating (task : Task) (update : JobUpdate)
  | updated (task : Task) (update : JobUpdate) (loaded : Job) (now : Time)
  /-- In the service, between the updates. -/
  | working (task : Task)
  /-- A cleanup, before its first and its second query, and before its commit. -/
  | cleaning (now : Time)
  | cleaningRunning (now : Time) (stale : List Job)
  | cleaned (now : Time) (stale timedOut : List Job)
deriving DecidableEq, Repr

/-- The rows that the next commit of a worker writes, as loaded and as modified. -/
def Worker.writes : Worker → List (Job × Job)
  | undispatched pipeline job => [(job, undispatchedJob pipeline job)]
  | updated _ update loaded now => [(loaded, update.apply now loaded)]
  | cleaned now stale timedOut =>
    stale.map (fun j => (j, lostJob now j)) ++ timedOut.map (fun j => (j, timedOutJob now j))
  | _ => []

structure World where
  now : Time
  nextId : ℕ
  jobs : List Job
  queue : List Task
  workers : ℕ → Option Worker

inductive Event where
  | tick (d : Time)
  /-- An endpoint creates a job. -/
  | create (i companyId : ℕ)
  | dispatch (i : ℕ)
  /-- `delay` raises; the broker may have got the message all the same. -/
  | dispatchRaises (i : ℕ) (pipeline delivered : Bool)
  /-- The `n`-th message of the queue is delivered, for the first time or again. -/
  | deliver (i n : ℕ)
  | acknowledge (n : ℕ)
  | startCleanup (i : ℕ)
  | load (i : ℕ)
  | commit (i : ℕ)
  /-- A query or a commit raises. -/
  | raise (i : ℕ) (error : List Char) (retryable : Bool)
  /-- The service returns its summary or raises. -/
  | outcome (i : ℕ) (result : Except (List Char × Bool) (List Char))
  /-- The process is killed. -/
  | kill (i : ℕ)
  /-- The row goes with its company. -/
  | deleteJob (jobId : ℕ)
deriving DecidableEq

namespace World

def init (t : Time) : World where
  now := t
  nextId := 0
  jobs := []
  queue := []
  workers _ := none

def setWorker (w : World) (i : ℕ) (worker : Worker) : World :=
  { w with workers := Function.update w.workers i (some worker) }

def clearWorker (w : World) (i : ℕ) : World :=
  { w with workers := Function.update w.workers i none }

/-- The rows that the worker in slot `i` has changed. -/
def writes (w : World) (i : ℕ) : List (Job × Job) := ((w.workers i).map Worker.writes).getD []

/-- The rows after the commit of changed rows. -/
def flushed (w : World) (writes : List (Job × Job)) : List Job :=
  w.jobs.map fun row => match writes.find? fun p => p.1.id = row.id with
    | none => row
    | some (loaded, modified) => Job.flush loaded modified row

/-- The end of an attempt, with an exception that is retried or not. -/
def attemptRaised (w : World) (i : ℕ) (task : Task) (retryable : Bool) : World :=
  let w := w.clearWorker i
  if retryable = true ∧ task.retries < maxRetries then
    { w with queue := w.queue ++ [{ task with retries := task.retries + 1 }] }
  else w

/-- `_update_job` has returned. -/
def afterUpdate (w : World) (i : ℕ) (task : Task) : JobUpdate → World
  | .running => w.setWorker i (.working task)
  | .completed _ => w.clearWorker i
  | .failed _ retryable => w.attemptRaised i task retryable

/-- `_update_job` has raised: the attempt ends, or goes on in its `except` branch. -/
def updateRaised (w : World) (i : ℕ) (task : Task) (error : List Char) (retryable : Bool) :
    JobUpdate → World
  | .completed _ => w.setWorker i (.updating task (.failed error retryable))
  | _ => w.attemptRaised i task retryable

/-- A query of the worker in slot `i`. -/
def load (w : World) (i : ℕ) : Worker → Option World
  | .updating task update =>
    match Table.get Job.id w.jobs task.jobId with
    | none => some (w.afterUpdate i task update)
    | some job => some (w.setWorker i (.updated task update job w.now))
  | .cleaning now =>
    some (w.setWorker i (.cleaningRunning now (w.jobs.filter fun j =>
      j.status = .pending ∧ j.createdAt < now - pendingStaleAfter)))
  | .cleaningRunning now stale =>
    -- the jobs of the first query have been flushed as `FAILED`
    some (w.setWorker i (.cleaned now stale (w.jobs.filter fun j =>
      j.status = .running ∧ j.startedAt.any (· < now - runningStaleAfter) ∧
        j.id ∉ stale.map (·.id))))
  | _ => none

/-- The commit of the worker in slot `i`; a row that is gone makes it raise. -/
def commit (w : World) (i : ℕ) (worker : Worker) : Option World :=
  if worker.writes.all fun p => (Table.get Job.id w.jobs p.1.id).isSome then
    let w' := { w with jobs := w.flushed worker.writes }
    match worker with
    | .updated task update _ _ => some (w'.afterUpdate i task update)
    | .undispatched .. | .cleaned .. => some (w'.clearWorker i)
    | _ => none
  else none

/-- An exception in the worker in slot `i`. -/
def raise (w : World) (i : ℕ) (error : List Char) (retryable : Bool) : Worker → World
  | .updating task update => w.updateRaised i task error retryable update
  | .updated task update _ _ => w.updateRaised i task error retryable update
  | _ => w.clearWorker i

def step (w : World) : Event → Option World
  | .tick d => if 0 ≤ d then some { w with now := w.now + d } else none
  | .create i companyId =>
    let job : Job := { id := w.nextId, companyId := companyId, createdAt := w.now }
    if w.workers i = none then
      some ({ w with nextId := w.nextId + 1, jobs := w.jobs ++ [job] }.setWorker i
        (.dispatching job))
    else none
  | .dispatch i => match w.workers i with
    | some (.dispatching job) =>
      some ({ w with queue := w.queue ++ [Task.mk job.id 0] }.clearWorker i)
    | _ => none
  | .dispatchRaises i pipeline delivered => match w.workers i with
    | some (.dispatching job) =>
      let queue := if delivered then w.queue ++ [Task.mk job.id 0] else w.queue
      some ({ w with queue := queue }.setWorker i (.undispatched pipeline job))
    | _ => none
  | .deliver i n => match w.workers i, w.queue[n]? with
    | none, some task => some (w.setWorker i (.updating task .running))
    | _, _ => none
  | .acknowledge n => some { w with queue := w.queue.eraseIdx n }
  | .startCleanup i => if w.workers i = none then some (w.setWorker i (.cleaning w.now)) else none
  | .load i => (w.workers i).bind (w.load i)
  | .commit i => (w.workers i).bind (w.commit i)
  | .raise i error retryable => (w.workers i).map (w.raise i error retryable)
  | .outcome i result => match w.workers i, result with
    | some (.working task), .ok summary =>
      some (w.setWorker i (.updating task (.completed summary)))
    | some (.working task), .error (error, retryable) =>
      some (w.setWorker i (.updating task (.failed error retryable)))
    | _, _ => none
  | .kill i => some (w.clearWorker i)
  | .deleteJob jobId => some { w with jobs := Table.remove Job.id w.jobs jobId }

end World
end Jobs
end LeadPulse
