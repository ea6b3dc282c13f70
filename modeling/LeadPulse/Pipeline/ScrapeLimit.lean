import LeadPulse.Lib.Pool
import LeadPulse.Lib.Run
import LeadPulse.Lib.Table
import LeadPulse.Models

/-!
# The daily scrape limit

`trigger_scrape` and `trigger_pipeline` (`api/v1/companies.py`) create a job and send a message to
the workers, and `_scrape_company` (`tasks/scraping.py`) scrapes the homepage for it. The last check
of `max_scrapes_per_day` is that of the task: it counts the jobs of the day that have not failed,
its own among them. A message may be delivered more than once, as the task is acknowledged late
and retried.

A job that fails after its scrape was sent leaves the count, and a second run for the same job
was never in it, so more scrapes can be sent than the limit allows: `failed_exceed`.
`withinScrapeLimit_of_roomForUncounted` says when they do not.
-/

namespace LeadPulse
namespace Scrape

structure ScrapeConfig where
  maxScrapesPerDay : ℕ := 50
deriving DecidableEq, Repr

inductive ScrapeJobStatus where
  | pending
  | running
  | completed
  | failed
deriving DecidableEq, Repr

/-- A row of `scrape_jobs`. -/
structure ScrapeRow where
  id : ℕ
  companyId : ℕ
  createdAt : Time
  status : ScrapeJobStatus := .pending
  startedAt : Option Time := none
  completedAt : Option Time := none
  pagesScraped : Option ℕ := none
  creditsUsed : Option ℚ := none
  errorMessage : Option (List Char) := none
deriving DecidableEq, Repr

/-- The columns of the row after an `UPDATE` of what has changed between `loaded` and
`modified`. -/
def ScrapeRow.flush (loaded modified row : ScrapeRow) : ScrapeRow :=
  { row with
    status := pick (·.status)
    startedAt := pick (·.startedAt)
    completedAt := pick (·.completedAt)
    pagesScraped := pick (·.pagesScraped)
    creditsUsed := pick (·.creditsUsed)
    errorMessage := pick (·.errorMessage) }
where
  pick {β : Type} [DecidableEq β] (field : ScrapeRow → β) : β :=
    if field modified = field loaded then field row else field modified

inductive Endpoint where
  | triggerScrape
  | triggerPipeline
deriving DecidableEq, Repr

/-- A request that has passed the checks of its endpoint, with the job it has inserted. -/
structure Request where
  endpoint : Endpoint
  companyId : ℕ
  jobId : Option ℕ := none
deriving DecidableEq, Repr

/-- The arguments of `trigger_company_scrape`. -/
structure Message where
  companyId : ℕ
  jobId : ℕ
deriving DecidableEq, Repr

/-- How far a run of `_scrape_company` has got. -/
inductive Phase where
  /-- The check of the limit has failed, and the job is still to be marked. -/
  | refused
  /-- The check has passed. -/
  | passed
  /-- The job is running. -/
  | running
  /-- Firecrawl has been asked for the homepage. -/
  | sent
deriving DecidableEq, Repr

/-- A run of the task, with the job as its session has it. -/
structure TaskRun where
  job : ScrapeRow
  phase : Phase
deriving DecidableEq, Repr

/-- The end of a run that has sent its scrape. -/
inductive ScrapeOutcome where
  /-- `client.scrape` raises. -/
  | failed (exc : List Char)
  /-- A page comes back; `enough` says that it has 50 characters or more. -/
  | page (enough : Bool)
  /-- An `APIError` or a `TimeoutError` after that. -/
  | interrupted (exc : List Char)
deriving DecidableEq, Repr

/-- A job, as it is remembered when a run has got past the check or has sent its scrape. -/
structure Mark where
  jobId : ℕ
  createdAt : Time
deriving DecidableEq, Repr

structure ScrapeWorld where
  now : Time
  /-- Some ICP profile is active. -/
  activeIcp : Bool := true
  companies : List Company
  jobs : List ScrapeRow := []
  nextId : ℕ := 1
  requests : List Request := []
  messages : List Message := []
  runs : List TaskRun := []
  /-- The runs that have got past the check of the limit. -/
  starts : List Mark := []
  /-- The homepage scrapes sent to Firecrawl. -/
  sends : List Mark := []
deriving DecidableEq, Repr

inductive ScrapeAction where
  | tick (d : Time)
  /-- A request arrives and goes through the checks of its endpoint. -/
  | request (endpoint : Endpoint) (companyId : ℕ)
  /-- Request `i` inserts its job. -/
  | insert (i : ℕ)
  /-- Request `i` sends the message for its job. -/
  | dispatch (i : ℕ) (delay : Except String Unit)
  /-- Message `j` is delivered, which may happen again. -/
  | deliver (j : ℕ)
  /-- Run `i` commits what follows from its check. -/
  | commit (i : ℕ)
  /-- Run `i` sends its scrape. -/
  | send (i : ℕ)
  /-- Run `i` commits its outcome. -/
  | finish (i : ℕ) (outcome : ScrapeOutcome)
  /-- Run `i` dies. -/
  | crash (i : ℕ)
deriving DecidableEq, Repr

namespace ScrapeWorld

def company (w : ScrapeWorld) (companyId : ℕ) : Option Company :=
  Table.get Company.id w.companies companyId

def job (w : ScrapeWorld) (jobId : ℕ) : Option ScrapeRow := Table.get ScrapeRow.id w.jobs jobId

/-- The job was created today. -/
def today (w : ScrapeWorld) (createdAt : Time) : Bool := todayStart w.now ≤ createdAt

/-! ## The endpoints -/

/-- The checks of an endpoint; those of `trigger_pipeline` end with the company. -/
def checkRequest (cfg : ScrapeConfig) (w : ScrapeWorld) (endpoint : Endpoint) (companyId : ℕ) :
    Except HTTPException Unit :=
  if ¬ w.activeIcp then
    .error ⟨422, "No active ICP profile. Please activate an ICP profile first."⟩
  else if (w.company companyId).all (·.status = .archived) then .error ⟨404, "Company not found"⟩
  else match endpoint with
  | .triggerPipeline => .ok ()
  | .triggerScrape =>
    -- all jobs of the day are counted here, whatever their status
    if cfg.maxScrapesPerDay ≤ w.jobs.countP (fun j => w.today j.createdAt) then
      .error ⟨429, "Daily scrape limit reached (" ++ toString cfg.maxScrapesPerDay ++
        "/day). Adjust in Settings > Usage Limits."⟩
    else if 0 < w.jobs.countP (fun j => j.companyId = companyId ∧ w.today j.createdAt) then
      .error ⟨429, "This company has already been scraped today. Try again tomorrow."⟩
    else if w.jobs.any fun j =>
        j.companyId = companyId ∧ (j.status = .pending ∨ j.status = .running) then
      .error ⟨409, "A scrape job is already running for this company."⟩
    else .ok ()

/-- What a job says whose message could not be sent. -/
def dispatchError : Endpoint → List Char
  | .triggerScrape => "Failed to dispatch scrape task".toList
  | .triggerPipeline => "Failed to dispatch pipeline".toList

/-- A job whose message could not be sent. -/
def markUndispatched (w : ScrapeWorld) (jobId : ℕ) (endpoint : Endpoint) : List ScrapeRow :=
  Table.modify ScrapeRow.id w.jobs jobId fun job =>
    { job with status := .failed, errorMessage := some (dispatchError endpoint) }

/-! ## The task -/

/-- `scrapes_today`: the jobs of the day that have not failed. -/
def scrapesToday (w : ScrapeWorld) : ℕ :=
  w.jobs.countP fun j => w.today j.createdAt ∧ j.status ≠ .failed

/-- A run of the task up to the check; it ends where the company or the job is missing. -/
def deliver (cfg : ScrapeConfig) (w : ScrapeWorld) (m : Message) : ScrapeWorld :=
  match w.company m.companyId, w.job m.jobId with
  | some _, some job =>
    if cfg.maxScrapesPerDay < w.scrapesToday then
      { w with runs := w.runs ++ [{ job := job, phase := .refused }] }
    else
      { w with runs := w.runs ++ [{ job := job, phase := .passed }]
               starts := w.starts ++ [{ jobId := job.id, createdAt := job.createdAt }] }
  | _, _ => w

/-- A commit of the session of run `i`. -/
def saveJob (w : ScrapeWorld) (loaded modified : ScrapeRow) : List ScrapeRow :=
  Table.modify ScrapeRow.id w.jobs loaded.id (loaded.flush modified)

/-- The job of a run that has not passed the check. -/
def refusedJob (cfg : ScrapeConfig) (now : Time) (job : ScrapeRow) : ScrapeRow :=
  { job with
    status := .failed
    errorMessage := some ("Daily scrape limit reached (".toList ++
      (toString cfg.maxScrapesPerDay).toList ++ "/day)".toList)
    completedAt := some now }

/-- The job at the end of a run. -/
def finishedJob (now : Time) (job : ScrapeRow) : ScrapeOutcome → ScrapeRow
  | .failed exc => { job with
      status := .failed
      errorMessage := some ("Homepage scrape failed: ".toList ++ exc)
      completedAt := some now }
  | .page enough => { job with
      pagesScraped := some 1
      creditsUsed := some 1
      completedAt := some now
      status := if enough then .completed else .failed
      errorMessage := if enough then job.errorMessage else
        some "No page content could be scraped — check Firecrawl API key and credits".toList }
  | .interrupted exc => { job with
      status := .failed
      errorMessage := some (exc.take 500)
      completedAt := some now }

def step (cfg : ScrapeConfig) (w : ScrapeWorld) : ScrapeAction → Option ScrapeWorld
  | .tick d => if 0 ≤ d then some { w with now := w.now + d } else none
  | .request endpoint companyId =>
    match w.checkRequest cfg endpoint companyId with
    | .error _ => some w
    | .ok _ => some { w with requests := w.requests ++ [{ endpoint, companyId }] }
  | .insert i =>
    match w.requests[i]? with
    | some { endpoint, companyId, jobId := none } => some { w with
        jobs := w.jobs ++ [{ id := w.nextId, companyId, createdAt := w.now }]
        nextId := w.nextId + 1
        requests := w.requests.set i { endpoint, companyId, jobId := some w.nextId } }
    | _ => none
  | .dispatch i delay =>
    match w.requests[i]? with
    | some { endpoint, companyId, jobId := some jobId } => some { w with
        requests := w.requests.eraseIdx i
        messages := if delay.isOk then w.messages ++ [{ companyId, jobId }] else w.messages
        jobs := if delay.isOk then w.jobs else w.markUndispatched jobId endpoint }
    | _ => none
  | .deliver j => w.messages[j]?.map (w.deliver cfg)
  | .commit i =>
    match w.runs[i]? with
    | some { job, phase := .refused } => some { w with
        jobs := w.saveJob job (refusedJob cfg w.now job)
        runs := w.runs.eraseIdx i }
    | some { job, phase := .passed } =>
      let modified := { job with status := .running, startedAt := some w.now }
      some { w with
        jobs := w.saveJob job modified
        runs := w.runs.set i { job := modified, phase := .running } }
    | _ => none
  | .send i =>
    match w.runs[i]? with
    | some { job, phase := .running } => some { w with
        sends := w.sends ++ [{ jobId := job.id, createdAt := job.createdAt }]
        runs := w.runs.set i { job, phase := .sent } }
    | _ => none
  | .finish i outcome =>
    match w.runs[i]? with
    | some { job, phase := .sent } => some { w with
        jobs := w.saveJob job (finishedJob w.now job outcome)
        runs := w.runs.eraseIdx i }
    | _ => none
  | .crash i => w.runs[i]?.map fun _ => { w with runs := w.runs.eraseIdx i }

/-! ## The limit -/

/-- The marks of jobs that were created today. -/
def ofToday (w : ScrapeWorld) (marks : List Mark) : ℕ := marks.countP fun x => w.today x.createdAt

/-- The scrapes sent for the jobs of the day do not exceed the limit. -/
def WithinScrapeLimit (cfg : ScrapeConfig) (w : ScrapeWorld) : Prop :=
  w.ofToday w.sends ≤ cfg.maxScrapesPerDay

/-- A run for the job has got past the check. -/
def started (w : ScrapeWorld) (jobId : ℕ) : Bool := w.starts.any (·.jobId = jobId)

/-- The jobs that `scrapesToday` counts and for which a run has got past the check. -/
def accounted (w : ScrapeWorld) : ℕ :=
  w.jobs.countP fun j => (w.today j.createdAt ∧ j.status ≠ .failed) ∧ w.started j.id

/-- The runs of the day that have got past the check and that `scrapesToday` does not count: their
job has failed since, or another run for it is counted. -/
def uncounted (w : ScrapeWorld) : ℕ := w.ofToday w.starts - w.accounted

/-- What the check misses when it decides on a run for `job`. -/
def missed (w : ScrapeWorld) (job : ScrapeRow) : ℕ :=
  w.uncounted + if job.status = .failed ∨ w.started job.id then 1 else 0

/-- A check that passes for a job of the day would also have passed with the runs counted that it
misses. -/
def RoomForUncounted (cfg : ScrapeConfig) (w : ScrapeWorld) : ScrapeAction → Prop
  | .deliver j => ∀ m ∈ w.messages[j]?, ∀ job ∈ w.job m.jobId, w.today job.createdAt = true →
      w.scrapesToday ≤ cfg.maxScrapesPerDay →
        w.missed job = 0 ∨ w.scrapesToday + w.missed job ≤ cfg.maxScrapesPerDay
  | _ => True

instance (cfg : ScrapeConfig) (w : ScrapeWorld) : DecidablePred (w.RoomForUncounted cfg)
  | .deliver j => inferInstanceAs (Decidable (∀ m ∈ w.messages[j]?, ∀ job ∈ w.job m.jobId,
      w.today job.createdAt = true → w.scrapesToday ≤ cfg.maxScrapesPerDay →
        w.missed job = 0 ∨ w.scrapesToday + w.missed job ≤ cfg.maxScrapesPerDay))
  | .tick _ | .request _ _ | .insert _ | .dispatch _ _ | .commit _ | .send _ | .finish _ _
  | .crash _ => inferInstanceAs (Decidable True)

/-! ## The invariant -/

variable {cfg : ScrapeConfig} {w w' : ScrapeWorld}

/-- A run for a job created since `d` that has got past the check and has not sent its scrape. -/
def unsent (d : Time) (r : TaskRun) : Bool :=
  (r.phase = .passed ∨ r.phase = .running) && d ≤ r.job.createdAt

structure Inv (cfg : ScrapeConfig) (w : ScrapeWorld) : Prop where
  /-- Each scrape was sent by a run that has got past the check, and no run has sent two. -/
  sent : ∀ d : Time, w.sends.countP (fun x => d ≤ x.createdAt) + w.runs.countP (unsent d) ≤
    w.starts.countP fun x => d ≤ x.createdAt
  limit : w.ofToday w.starts ≤ cfg.maxScrapesPerDay

theorem Inv.withinScrapeLimit (h : Inv cfg w) : w.WithinScrapeLimit cfg := by
  have hsent := h.sent (todayStart w.now)
  have hlimit := h.limit
  unfold WithinScrapeLimit ofToday today at *
  omega

/-- What is counted with `q` and without it. -/
theorem countP_split {α : Type*} (p q : α → Bool) (xs : List α) :
    xs.countP p = xs.countP (fun x => p x && q x) + xs.countP fun x => p x && ! q x := by
  induction xs with
  | nil => rfl
  | cons x xs ih =>
    rw [List.countP_cons, List.countP_cons, List.countP_cons, ih]
    cases p x <;> cases q x <;> simp <;> omega

theorem scrapesToday_eq (w : ScrapeWorld) :
    w.scrapesToday = w.accounted + w.jobs.countP fun j =>
      decide (w.today j.createdAt = true ∧ j.status ≠ .failed) && ! w.started j.id := by
  unfold scrapesToday accounted
  rw [countP_split _ fun j => w.started j.id]
  congr 2
  funext j
  simp

/-- A check that passes leaves room for one more run, with the runs counted that it misses. -/
theorem starts_lt {m : Message} {job : ScrapeRow} {j : ℕ}
    (hroom : w.RoomForUncounted cfg (.deliver j)) (hm : w.messages[j]? = some m)
    (hjob : w.job m.jobId = some job)
    (htoday : w.today job.createdAt = true) (hcheck : w.scrapesToday ≤ cfg.maxScrapesPerDay) :
    w.ofToday w.starts < cfg.maxScrapesPerDay := by
  have hcases := hroom m hm job hjob htoday hcheck
  have hsplit := scrapesToday_eq w
  unfold missed uncounted at hcases
  by_cases hnew : job.status = .failed ∨ w.started job.id = true
  · rw [if_pos hnew] at hcases
    omega
  · -- the job itself is counted, and no run of it has got past the check
    rw [if_neg hnew] at hcases
    rw [not_or] at hnew
    have hown : 0 < w.jobs.countP fun j =>
        decide (w.today j.createdAt = true ∧ j.status ≠ .failed) && ! w.started j.id := by
      refine List.countP_pos_iff.mpr ⟨job, Table.mem_of_get hjob, ?_⟩
      simp [htoday, hnew.1, hnew.2]
    omega

/-! ## One step -/

/-- Nothing is sent, and no run gets past the check. -/
theorem Inv.of_quiet (h : Inv cfg w) (hsends : w'.sends = w.sends) (hstarts : w'.starts = w.starts)
    (hruns : ∀ d, w'.runs.countP (unsent d) ≤ w.runs.countP (unsent d)) (hnow : w.now ≤ w'.now) :
    Inv cfg w' where
  sent := fun d => by
    rw [hsends, hstarts]
    exact Nat.le_trans (Nat.add_le_add_left (hruns d) _) (h.sent d)
  limit := by
    refine Nat.le_trans ?_ h.limit
    unfold ofToday
    rw [hstarts]
    refine List.countP_mono_left fun x _ hx => ?_
    exact decide_eq_true (Int.le_trans (todayStart_mono hnow) (of_decide_eq_true hx))

/-- A run ends. -/
theorem Inv.endRun (h : Inv cfg w) (i : ℕ) (jobs : List ScrapeRow) :
    Inv cfg { w with jobs := jobs, runs := w.runs.eraseIdx i } :=
  h.of_quiet rfl rfl (fun _ => (List.eraseIdx_sublist _ _).countP_le) (Int.le_refl _)

/-- A run gets past the check. -/
theorem Inv.start (h : Inv cfg w) {job : ScrapeRow}
    (hlt : w.today job.createdAt = true → w.ofToday w.starts < cfg.maxScrapesPerDay) :
    Inv cfg { w with runs := w.runs ++ [{ job := job, phase := .passed }],
                     starts := w.starts ++ [{ jobId := job.id, createdAt := job.createdAt }] } where
  sent := fun d => by
    have hold := h.sent d
    rw [List.countP_append, List.countP_append, List.countP_singleton, List.countP_singleton]
    simp only [unsent, true_or, decide_true, Bool.true_and]
    omega
  limit := by
    have hold := h.limit
    unfold ofToday today at *
    show (w.starts ++ [_]).countP _ ≤ _
    rw [List.countP_append, List.countP_singleton]
    split
    · rename_i htoday
      exact hlt htoday
    · exact hold

/-- A run sends its scrape. -/
theorem Inv.send (h : Inv cfg w) {i : ℕ} {job : ScrapeRow}
    (hi : w.runs[i]? = some { job := job, phase := .running }) :
    Inv cfg { w with sends := w.sends ++ [{ jobId := job.id, createdAt := job.createdAt }],
                     runs := w.runs.set i { job := job, phase := .sent } } where
  sent := fun d => by
    have hold := h.sent d
    have hset := Pool.countP_set (unsent d) { job := job, phase := .sent } hi
    rw [List.countP_append, List.countP_singleton]
    simp only [unsent, reduceCtorEq, or_true, or_self, decide_true, decide_false, Bool.true_and,
      Bool.false_and, Bool.false_eq_true, if_false, decide_eq_true_eq] at hset ⊢
    omega
  limit := h.limit

/-- A message is delivered. -/
theorem Inv.deliver (h : Inv cfg w) {j : ℕ} {m : Message}
    (hroom : w.RoomForUncounted cfg (.deliver j)) (hm : w.messages[j]? = some m) :
    Inv cfg (w.deliver cfg m) := by
  unfold ScrapeWorld.deliver
  split
  · rename_i company job _ hjob
    split
    · refine h.of_quiet rfl rfl (fun d => ?_) (Int.le_refl _)
      rw [List.countP_append]
      exact Nat.le_refl _
    · rename_i hcheck
      exact h.start fun htoday => starts_lt hroom hm hjob htoday (Nat.not_lt.mp hcheck)
  · exact h

theorem Inv.step {a : ScrapeAction} (h : Inv cfg w) (hroom : w.RoomForUncounted cfg a)
    (hs : w.step cfg a = some w') : Inv cfg w' := by
  cases a with
  | tick d =>
    simp only [ScrapeWorld.step, Option.ite_none_right_eq_some] at hs
    obtain rfl := Option.some.inj hs.2
    exact h.of_quiet rfl rfl (fun _ => Nat.le_refl _) (Int.le_add_of_nonneg_right hs.1)
  | request endpoint companyId =>
    simp only [ScrapeWorld.step] at hs
    split at hs
    · obtain rfl := Option.some.inj hs
      exact h
    · obtain rfl := Option.some.inj hs
      exact ⟨h.sent, h.limit⟩
  | insert i =>
    simp only [ScrapeWorld.step] at hs
    split at hs
    · obtain rfl := Option.some.inj hs
      exact ⟨h.sent, h.limit⟩
    · cases hs
  | dispatch i delay =>
    simp only [ScrapeWorld.step] at hs
    split at hs
    · obtain rfl := Option.some.inj hs
      exact ⟨h.sent, h.limit⟩
    · cases hs
  | deliver j =>
    simp only [ScrapeWorld.step, Option.map_eq_some_iff] at hs
    obtain ⟨m, hm, rfl⟩ := hs
    exact h.deliver hroom hm
  | commit i =>
    simp only [ScrapeWorld.step] at hs
    split at hs
    · obtain rfl := Option.some.inj hs
      exact h.endRun i _
    · -- the run goes from one phase before its scrape to the next
      rename_i job hi
      obtain rfl := Option.some.inj hs
      refine h.of_quiet rfl rfl (fun d => ?_) (Int.le_refl _)
      have hset := Pool.countP_set (unsent d)
        { job := { job with status := .running, startedAt := some w.now }, phase := .running } hi
      exact Nat.le_of_eq (Nat.add_right_cancel hset)
    · cases hs
  | send i =>
    simp only [ScrapeWorld.step] at hs
    split at hs
    · rename_i job hi
      obtain rfl := Option.some.inj hs
      exact h.send hi
    · cases hs
  | finish i outcome =>
    simp only [ScrapeWorld.step] at hs
    split at hs
    · obtain rfl := Option.some.inj hs
      exact h.endRun i _
    · cases hs
  | crash i =>
    simp only [ScrapeWorld.step, Option.map_eq_some_iff] at hs
    obtain ⟨_, _, rfl⟩ := hs
    exact h.endRun i w.jobs

/-! ## Whole runs -/

/-- If no check of the task passes that would have failed with the runs counted that it misses,
the scrapes sent for the jobs of a day do not exceed the limit in any state of the run. -/
theorem withinScrapeLimit_of_roomForUncounted (cfg : ScrapeConfig) (now : Time) (activeIcp : Bool)
    (companies : List Company) (jobs : List ScrapeRow) (nextId : ℕ) (as : List ScrapeAction)
    (hroom : Run.AllSteps (step cfg) (RoomForUncounted cfg)
      { now, activeIcp, companies, jobs, nextId } as) :
    Run.AllStates (step cfg) (WithinScrapeLimit cfg)
      { now, activeIcp, companies, jobs, nextId } as := by
  have h₀ : Inv cfg { now, activeIcp, companies, jobs, nextId } :=
    { sent := fun _ => Nat.le_refl 0
      limit := Nat.zero_le _ }
  exact (Run.AllStates.of_inv (fun _ _ _ h hC hs => Inv.step h hC hs) h₀ hroom).mono
    fun _ h => h.withinScrapeLimit

/-- Two companies. -/
def acmeAndBeta : List Company :=
  [{ id := 1, name := "Acme".toList, domain := "acme.nl".toList },
   { id := 2, name := "Beta".toList, domain := "beta.nl".toList }]

/-- A request for one company whose task sends its scrape and ends with the given outcome, when
no other task is under way. `n` messages have been sent before. -/
def scrapeOf (endpoint : Endpoint) (companyId n : ℕ) (outcome : ScrapeOutcome) :
    List ScrapeAction :=
  [.request endpoint companyId, .insert 0, .dispatch 0 (.ok ()), .deliver n, .commit 0, .send 0,
    .finish 0 outcome]

/-- With a limit of two, one scrape that fails and one that does not, and a third request that is
turned down. -/
theorem withinScrapeLimit_example :
    Run.AllStates (step { maxScrapesPerDay := 2 }) (WithinScrapeLimit { maxScrapesPerDay := 2 })
      { now := 0, activeIcp := true, companies := acmeAndBeta, jobs := [], nextId := 1 }
      (scrapeOf .triggerScrape 1 0 (.page false) ++ scrapeOf .triggerPipeline 2 1 (.page true) ++
        [.request .triggerScrape 2]) :=
  withinScrapeLimit_of_roomForUncounted _ _ _ _ _ _ _
    (Run.AllSteps.of_check (fun _ _ h => of_decide_eq_true h) (by decide +kernel))

/-- With a limit of one, a scrape that fails makes room for the next one. -/
theorem failed_exceed :
    ¬ Run.AllStates (step { maxScrapesPerDay := 1 }) (WithinScrapeLimit { maxScrapesPerDay := 1 })
      { now := 0, activeIcp := true, companies := acmeAndBeta, jobs := [], nextId := 1 }
      (scrapeOf .triggerPipeline 1 0 (.failed "timeout".toList) ++
        scrapeOf .triggerPipeline 2 1 (.page true)) :=
  Run.not_allStates (q := fun w => 1 < w.ofToday w.sends)
    (fun _ hw => decide_eq_false (Nat.not_lt.mpr hw)) (by decide +kernel)

end ScrapeWorld
end Scrape
end LeadPulse
