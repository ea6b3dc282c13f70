import LeadPulse.Lib.Table
import LeadPulse.Models

/-!
# Executing the action of a signal

`ActionOrchestrator.execute` of `services/action_orchestrator.py` as a machine that stops
at each await. An execution is waiting

* `counting`: for the number of enrichment jobs of the day (`ENRICH_FURTHER`),
* `locking`: for the lock on the row of its company (`NOTIFY_IMMEDIATE`),
* `collecting`: for the pending signals of the company,
* `sending`: for the webhook,
* `committing`: for its commit, which writes what it has gathered.
-/

namespace LeadPulse

/-- `COMPANY_NOTIFICATION_COOLDOWN_HOURS`. -/
def cooldown : Time := hours 24

/-- `select(func.count())` of the jobs created since midnight. -/
def jobsToday (jobs : List EnrichmentJob) (now : Time) : ℕ :=
  jobs.countP fun j => todayStart now ≤ j.createdAt

/-- The statuses that `_dispatch_enrich_further` does not touch. -/
def keepsStatus (status : CompanyStatus) : Bool :=
  status = .monitoring ∨ status = .qualified ∨ status = .pushed

/-- `str(exc)[:500]`. -/
def clip (message : String) : String := String.ofList (message.toList.take 500)

/-- What an execution will commit: its audit entry, and its writes to the row of the
company. `action_executed_at` is set in any case. -/
structure Execution where
  signal : Signal
  audit : Option AuditLog := none
  companyStatus : Option CompanyStatus := none
  slackNotifiedAt : Option Time := none
deriving DecidableEq, Repr

/-- Where an execution is suspended. -/
inductive Dispatch where
  | counting (signal : Signal) (company : Option Company)
  | locking (signal : Signal)
  | collecting (signal : Signal) (company : Company)
  | sending (signal : Signal) (company : Company) (pending : List Signal)
  | committing (e : Execution)
deriving DecidableEq, Repr

namespace Dispatch

/-- The signal as it was loaded. -/
def signal : Dispatch → Signal
  | counting s _ | locking s | collecting s _ | sending s _ _ => s
  | committing e => e.signal

/-- The skipped reasons of an execution that does nothing. -/
inductive Skipped where
  | notFound
  | alreadyExecuted
  | noAction
deriving DecidableEq, Repr

def Skipped.reason : Skipped → String
  | notFound => "signal not found"
  | alreadyExecuted => "already executed"
  | noAction => "no action_taken set"

/-- The audit entry of a digest signal. -/
def digestEntry (s : Signal) : AuditLog where
  signalId := s.id
  actionType := .notifyDigest
  target := .slack
  status := .success

/-- Loading the signal, the guard, and the way to the first await. `slack` says whether a
webhook is configured. -/
def load (signals : List Signal) (companies : List Company) (slack : Bool) (signalId : ℕ) :
    Except Skipped Dispatch :=
  match Table.get Signal.id signals signalId with
  | none => .error .notFound
  | some s =>
    if s.actionExecutedAt.isSome then .error .alreadyExecuted
    else match s.actionTaken with
    | none => .error .noAction
    | some .notifyImmediate => .ok (if slack then .locking s else .committing { signal := s })
    | some .notifyDigest => .ok (.committing { signal := s, audit := some (digestEntry s) })
    | some .enrichFurther => .ok (.counting s (Table.get Company.id companies s.companyId))
    | some .ignore => .ok (.committing { signal := s })

/-! ## `_dispatch_enrich_further` -/

def enrichEntry (s : Signal) (error : Option String) : AuditLog where
  signalId := s.id
  actionType := .enrichFurther
  target := .enrichment
  targetId := some (toString s.companyId)
  status := if error.isSome then .failure else .success
  errorMessage := error

def limitMessage (limit : ℕ) : String :=
  "Daily enrichment limit reached (" ++ toString limit ++ "/day)"

/-- The execution once the day's jobs are counted and, below the limit, `delay` has been
called. The status is set whether or not the call has worked. -/
def enrich (limit count : ℕ) (s : Signal) (company : Option Company)
    (delay : Except String Unit) : Execution :=
  if limit ≤ count then { signal := s, audit := some (enrichEntry s (some (limitMessage limit))) }
  else
    { signal := s
      audit := some (enrichEntry s (match delay with
        | .ok _ => none
        | .error exc => some (clip exc)))
      companyStatus := company.bind fun c =>
        if keepsStatus c.status then none else some .monitoring }

/-! ## `_send_signal_notification` -/

/-- The cooldown check. -/
def coolingDown (company : Company) (now : Time) : Bool :=
  company.slackNotifiedAt.any fun t => now - cooldown ≤ t

/-- The signals that one message covers, the best score first and unscored ones last. -/
def pendingSignals (signals : List Signal) (s : Signal) : List Signal :=
  let pending := signals.filter fun t =>
    t.companyId = s.companyId ∧ t.isProcessed ∧ t.actionTaken = some .notifyImmediate ∧
      t.actionExecutedAt = none
  let (scored, unscored) := pending.partition (·.relevanceScore.isSome)
  let sorted := scored.mergeSort (fun a b => b.relevanceScore.getD 0 ≤ a.relevanceScore.getD 0)
  if pending = [] then [s] else sorted ++ unscored

def slackEntry (s : Signal) (error : Option String) : AuditLog where
  signalId := s.id
  actionType := s.actionTaken.getD .notifyImmediate
  target := .slack
  status := if error.isSome then .failure else .success
  errorMessage := error

/-- The execution once the webhook has answered: delivered or not, or an exception. -/
def deliver (s : Signal) (now : Time) : Except String Bool → Execution
  | .ok true => { signal := s, audit := some (slackEntry s none), slackNotifiedAt := some now }
  | .ok false => { signal := s, audit := some (slackEntry s (some "webhook delivery failed")) }
  | .error exc => { signal := s, audit := some (slackEntry s (some (clip exc))) }

/-! ## Facts -/

/-- What `load` starts is the execution of the row it has read, which has an action and
has not been executed. -/
theorem load_ok {signals : List Signal} {companies : List Company} {slack : Bool}
    {signalId : ℕ} {d : Dispatch} (h : load signals companies slack signalId = .ok d) :
    Table.get Signal.id signals signalId = some d.signal ∧ d.signal.actionExecutedAt = none ∧
      d.signal.actionTaken.isSome = true := by
  unfold load at h
  split at h
  · cases h
  · rename_i s hs
    split at h
    · cases h
    · rename_i hex
      have hex : s.actionExecutedAt = none := by simpa using hex
      split at h
      · cases h
      · rename_i ha
        cases h
        split
        · exact ⟨hs, hex, by simp [signal, ha]⟩
        · exact ⟨hs, hex, by simp [signal, ha]⟩
      all_goals
        rename_i ha
        cases h
        exact ⟨hs, hex, by simp [signal, ha]⟩

/-- Only a delivered message sets the time of the last notification. -/
theorem deliver_slackNotifiedAt (s : Signal) (now : Time) (result : Except String Bool) :
    (deliver s now result).slackNotifiedAt = if result = .ok true then some now else none := by
  rcases result with exc | (_ | _) <;> simp [deliver]

end Dispatch
end LeadPulse
