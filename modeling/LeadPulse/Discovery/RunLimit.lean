import LeadPulse.Lib.Table
import LeadPulse.Models

/-!
# The daily limit of discovery runs

`max_discovery_runs_per_day` is checked twice: by `triggerDiscovery` before the job of a run
is committed, and again by the task, `runDiscovery`, which then finds that job among the
runs of the day.

* `Meanwhile` says what may happen between the two: the clock moves on and other jobs run, but
  no run is triggered;
* `limitsAgree_iff`: the task takes an admitted run, and brings its job to an end, exactly if
  one more run would have been admitted after it, or the task starts on a later day.
-/

namespace LeadPulse

inductive DiscoveryJobStatus where
  | pending
  | running
  | completed
  | failed
deriving DecidableEq, Repr

/-- What a run reports, `DiscoveryResult`. -/
structure DiscoveryResult where
  companiesFound : ℕ := 0
  companiesAdded : ℕ := 0
  companiesSkipped : ℕ := 0
  firecrawlFound : ℕ := 0
  bedrijfsdataFound : ℕ := 0
  elapsedSeconds : ℚ := 0
  errors : List String := []
deriving DecidableEq, Repr

/-- The JSON document in the column `results`. -/
structure JobResults where
  firecrawlFound : ℕ
  bedrijfsdataFound : ℕ
  elapsedSeconds : ℚ
  errors : List String
deriving DecidableEq, Repr

/-- The columns of a `DiscoveryJob` that are written after its row is there. -/
structure JobProgress where
  status : DiscoveryJobStatus := .pending
  startedAt : Option Time := none
  completedAt : Option Time := none
  companiesFound : ℕ := 0
  companiesAdded : ℕ := 0
  companiesSkipped : ℕ := 0
  errorMessage : Option String := none
  results : Option JobResults := none
  celeryTaskId : Option String := none
deriving DecidableEq, Repr

structure DiscoveryJob extends JobProgress where
  id : ℕ
  trigger : String := "manual"
  createdAt : Time
deriving DecidableEq, Repr

/-- The table `discovery_jobs` at the time `now`, with the sequence that its ids come from. -/
structure DiscoveryDb where
  now : Time
  jobs : List DiscoveryJob
  nextId : ℕ
  nextId_pos : 0 < nextId
  id_lt : ∀ job ∈ jobs, job.id < nextId
  created_le : ∀ job ∈ jobs, job.createdAt ≤ now

/-- `select(func.count())` of the jobs created since `today_start_utc()`. -/
def runsToday (jobs : List DiscoveryJob) (now : Time) : ℕ :=
  jobs.countP fun job => todayStart now ≤ job.createdAt

namespace DiscoveryDb

variable {db db₂ db₃ : DiscoveryDb} {limit jobId : ℕ}

/-! ## Writing to the table -/

def job (db : DiscoveryDb) (jobId : ℕ) : Option DiscoveryJob :=
  Table.get DiscoveryJob.id db.jobs jobId

/-- A new job, committed. -/
def insert (db : DiscoveryDb) (trigger : String) : DiscoveryDb where
  now := db.now
  jobs := db.jobs ++ [{ id := db.nextId, trigger := trigger, createdAt := db.now }]
  nextId := db.nextId + 1
  nextId_pos := Nat.succ_pos _
  id_lt := Table.lt_append db.id_lt rfl
  created_le := by
    intro job hjob
    rcases List.mem_append.mp hjob with hold | hnew
    · exact db.created_le job hold
    · obtain rfl := List.mem_singleton.mp hnew
      exact Int.le_refl _

/-- An update of one job, committed. -/
def update (db : DiscoveryDb) (jobId : ℕ) (f : JobProgress → JobProgress) : DiscoveryDb where
  now := db.now
  jobs := Table.modify DiscoveryJob.id db.jobs jobId fun job =>
    { job with toJobProgress := f job.toJobProgress }
  nextId := db.nextId
  nextId_pos := db.nextId_pos
  id_lt := Table.lt_map db.id_lt (Table.key_modify fun _ => rfl)
  created_le := by
    intro job hjob
    obtain ⟨old, hold, rfl⟩ := List.mem_map.mp hjob
    have := db.created_le old hold
    split <;> exact this

/-- Time passes. -/
def tick (db : DiscoveryDb) (d : ℕ) : DiscoveryDb where
  now := db.now + d
  jobs := db.jobs
  nextId := db.nextId
  nextId_pos := db.nextId_pos
  id_lt := db.id_lt
  created_le := fun job hjob => by
    have := db.created_le job hjob
    unfold Time at *
    omega

end DiscoveryDb

/-! ## The endpoint -/

structure DiscoveryTriggerResponse where
  taskId : String
  jobId : ℕ
  message : String
deriving DecidableEq, Repr

/-- `trigger_discovery`. The answer of `discover_companies.delay` is the id of the task that
was queued, or the text of an exception. -/
def triggerDiscovery (limit : ℕ) (db : DiscoveryDb) (delay : Except String String) :
    DiscoveryDb × Except HTTPException DiscoveryTriggerResponse :=
  if limit ≤ runsToday db.jobs db.now then
    (db, .error ⟨429, "Daily discovery run limit reached (" ++ toString limit ++
      "/day). Adjust in Settings > Usage Limits."⟩)
  else
    let jobId := db.nextId
    let db := db.insert "manual"
    match delay with
    | .error exc =>
      (db.update jobId fun job => { job with
          status := .failed
          errorMessage := some ("Failed to dispatch: " ++ exc)
          completedAt := some db.now },
        .error ⟨503, "Failed to dispatch discovery task. Is the task queue running?"⟩)
    | .ok taskId =>
      (db.update jobId fun job => { job with celeryTaskId := some taskId },
        .ok ⟨taskId, jobId, "Discovery task dispatched"⟩)

/-! ## The task -/

/-- What `DiscoveryService.run` does in a run of the task: it takes some time, and returns a
result or raises. -/
structure ServiceRun where
  elapsed : ℕ
  outcome : Except String DiscoveryResult
deriving DecidableEq, Repr

/-- How `_run_discovery` ends: the text of its early return, the result whose summary it
returns, or the exception that it raises again. -/
inductive TaskResult where
  | limitReached (text : String)
  | summary (result : DiscoveryResult)
  | raised (exc : String)
deriving DecidableEq, Repr

/-- The `UPDATE` at the end of a run. -/
def JobProgress.finish (job : JobProgress) (now : Time) : Except String DiscoveryResult →
    JobProgress
  | .ok result => { job with
      status := .completed
      completedAt := some now
      companiesFound := result.companiesFound
      companiesAdded := result.companiesAdded
      companiesSkipped := result.companiesSkipped
      results := some ⟨result.firecrawlFound, result.bedrijfsdataFound, result.elapsedSeconds,
        result.errors⟩
      errorMessage := if result.errors = [] then none else some ("; ".intercalate result.errors) }
  | .error exc => { job with
      status := .failed
      completedAt := some now
      errorMessage := some exc }

/-- The part of `_run_discovery` after the limit check, with the job it works on. -/
def runJob (db : DiscoveryDb) (jobId : ℕ) (run : ServiceRun) : DiscoveryDb × TaskResult :=
  let started := db.update jobId fun job =>
    { job with status := .running, startedAt := some db.now }
  let later := started.tick run.elapsed
  (later.update jobId fun job => job.finish later.now run.outcome,
    match run.outcome with
    | .ok result => .summary result
    | .error exc => .raised exc)

/-- `_run_discovery`. Without a `job_id`, and for one that has no row, a new job is added. -/
def runDiscovery (limit : ℕ) (db : DiscoveryDb) (jobId : Option ℕ) (run : ServiceRun) :
    DiscoveryDb × TaskResult :=
  if limit ≤ runsToday db.jobs db.now then
    (db, .limitReached ("daily discovery limit reached (" ++ toString limit ++ "/day)"))
  else
    -- `if job_id:` also skips the query for the number zero
    match jobId.bind fun jobId => if jobId = 0 then none else db.job jobId with
    | some job => runJob db job.id run
    | none => runJob (db.insert "scheduled") db.nextId run

/-! ## Between the two -/

/-- The id and the time of a run that was triggered. -/
def DiscoveryJob.triggered (job : DiscoveryJob) : ℕ × Time := (job.id, job.createdAt)

/-- `db₂` is a later state than `db`, no run was triggered in between, and nothing has written
the status of the job `jobId`. -/
structure Meanwhile (jobId : ℕ) (db db₂ : DiscoveryDb) : Prop where
  now_le : db.now ≤ db₂.now
  triggered : db₂.jobs.map DiscoveryJob.triggered = db.jobs.map DiscoveryJob.triggered
  status : (db₂.job jobId).map (·.status) = (db.job jobId).map (·.status)

/-- The task took the run with the job `jobId`, and the job is not left `PENDING`. -/
def LimitsAgree (jobId : ℕ) (finished : DiscoveryDb × TaskResult) : Prop :=
  (∀ text, finished.2 ≠ .limitReached text) ∧
    ∃ job, finished.1.job jobId = some job ∧ job.status ≠ .pending

/-! ## Reading the table -/

section Table

variable {db db₂ db₃ : DiscoveryDb} {jobId k : ℕ} {f : JobProgress → JobProgress}

theorem DiscoveryDb.job_update_self :
    (db.update jobId f).job jobId =
      (db.job jobId).map fun job => { job with toJobProgress := f job.toJobProgress } :=
  Table.get_modify_self fun _ => rfl

theorem DiscoveryDb.job_update_ne (h : k ≠ jobId) : (db.update jobId f).job k = db.job k :=
  Table.get_modify_ne (fun _ => rfl) h

theorem DiscoveryDb.job_tick (d : ℕ) : (db.tick d).job k = db.job k := rfl

theorem DiscoveryDb.job_nextId : db.job db.nextId = none := Table.get_of_lt db.id_lt

theorem DiscoveryDb.job_insert_self (trigger : String) :
    (db.insert trigger).job db.nextId =
      some { id := db.nextId, trigger := trigger, createdAt := db.now } := by
  unfold DiscoveryDb.job DiscoveryDb.insert
  rw [Table.get_append_of_none db.job_nextId, if_pos rfl]

/-- Updates do not change which runs there are. -/
theorem DiscoveryDb.triggered_update :
    (db.update jobId f).jobs.map DiscoveryJob.triggered = db.jobs.map DiscoveryJob.triggered := by
  show (Table.modify DiscoveryJob.id db.jobs jobId _).map DiscoveryJob.triggered = _
  unfold Table.modify
  rw [List.map_map]
  refine List.map_congr_left fun job _ => ?_
  show DiscoveryJob.triggered (if job.id = jobId then _ else job) = job.triggered
  split <;> rfl

/-! ## Counting the runs of a day -/

/-- The count depends on which runs there are only. -/
theorem runsToday_congr {jobs jobs₂ : List DiscoveryJob} (now : Time)
    (h : jobs₂.map DiscoveryJob.triggered = jobs.map DiscoveryJob.triggered) :
    runsToday jobs₂ now = runsToday jobs now := by
  have hcount : ∀ jobs : List DiscoveryJob, runsToday jobs now =
      (jobs.map DiscoveryJob.triggered).countP fun run => todayStart now ≤ run.2 := by
    intro jobs
    rw [List.countP_map]
    rfl
  rw [hcount, hcount, h]

theorem runsToday_insert (trigger : String) :
    runsToday (db.insert trigger).jobs db.now = runsToday db.jobs db.now + 1 := by
  show runsToday (db.jobs ++ [_]) db.now = _
  unfold runsToday
  rw [List.countP_append, List.countP_singleton, if_pos]
  exact decide_eq_true (todayStart_le db.now)

/-- On a later day none of the runs is of that day. -/
theorem runsToday_eq_zero {now : Time} (h : todayStart db.now < todayStart now) :
    runsToday db.jobs now = 0 := by
  refine List.countP_eq_zero.mpr fun job hjob => ?_
  have hcreated := db.created_le job hjob
  have hnow := lt_todayStart h
  rw [decide_eq_true_eq]
  unfold Time at *
  omega

/-! ## What may happen in between -/

theorem Meanwhile.refl (jobId : ℕ) (db : DiscoveryDb) : Meanwhile jobId db db :=
  ⟨Int.le_refl _, rfl, rfl⟩

theorem Meanwhile.trans (h : Meanwhile jobId db db₂) (h₂ : Meanwhile jobId db₂ db₃) :
    Meanwhile jobId db db₃ :=
  ⟨Int.le_trans h.now_le h₂.now_le, h₂.triggered.trans h.triggered, h₂.status.trans h.status⟩

theorem Meanwhile.tick (d : ℕ) : Meanwhile jobId db (db.tick d) :=
  ⟨Int.le_add_of_nonneg_right (Int.natCast_nonneg d), rfl, rfl⟩

theorem Meanwhile.update (h : jobId ≠ k) : Meanwhile jobId db (db.update k f) := by
  refine ⟨Int.le_refl _, DiscoveryDb.triggered_update, ?_⟩
  rw [DiscoveryDb.job_update_ne h]

/-- The task of another job that has its row. -/
theorem Meanwhile.runDiscovery {job : DiscoveryJob} (limit : ℕ) (run : ServiceRun)
    (h : jobId ≠ k) (hk : k ≠ 0) (hjob : db.job k = some job) :
    Meanwhile jobId db (runDiscovery limit db (some k) run).1 := by
  unfold LeadPulse.runDiscovery
  by_cases hlimit : limit ≤ runsToday db.jobs db.now
  · rw [if_pos hlimit]
    exact Meanwhile.refl jobId db
  · have hid : job.id = k := Table.key_of_get hjob
    rw [if_neg hlimit, Option.bind_some, if_neg hk, hjob]
    show Meanwhile jobId db (runJob db job.id run).1
    rw [hid]
    unfold runJob
    dsimp only
    exact ((Meanwhile.update h).trans (Meanwhile.tick _)).trans (Meanwhile.update h)

end Table

/-! ## The two checks -/

variable {db db₂ : DiscoveryDb} {limit jobId : ℕ} {delay : Except String String}
  {response : DiscoveryTriggerResponse} {run : ServiceRun}

/-- An admitted run: the limit was not reached, and the new job is there. -/
theorem triggerDiscovery_ok (h : (triggerDiscovery limit db delay).2 = .ok response) :
    runsToday db.jobs db.now < limit ∧ response.jobId = db.nextId ∧
      (triggerDiscovery limit db delay).1.now = db.now ∧
      (triggerDiscovery limit db delay).1.jobs.map DiscoveryJob.triggered =
        (db.insert "manual").jobs.map DiscoveryJob.triggered ∧
      ((triggerDiscovery limit db delay).1.job db.nextId).map (·.status) = some .pending := by
  unfold triggerDiscovery at h ⊢
  by_cases hlimit : limit ≤ runsToday db.jobs db.now
  · rw [if_pos hlimit] at h
    cases h
  · rw [if_neg hlimit] at h ⊢
    cases delay with
    | error exc => cases h
    | ok taskId =>
      cases h
      refine ⟨by omega, rfl, rfl, DiscoveryDb.triggered_update, ?_⟩
      show ((DiscoveryDb.update _ _ _).job db.nextId).map _ = _
      rw [DiscoveryDb.job_update_self, DiscoveryDb.job_insert_self]
      rfl

/-- What the task counts: with the admitted run, as long as the day has not changed. -/
theorem runsToday_meanwhile {created : DiscoveryDb} (hnow : created.now = db.now)
    (hruns : created.jobs.map DiscoveryJob.triggered =
      (db.insert "manual").jobs.map DiscoveryJob.triggered)
    (h : Meanwhile jobId created db₂) :
    runsToday db₂.jobs db₂.now =
      if todayStart db.now < todayStart db₂.now then 0 else runsToday db.jobs db.now + 1 := by
  have hcongr := runsToday_congr db₂.now (h.triggered.trans hruns)
  rw [hcongr]
  by_cases hday : todayStart db.now < todayStart db₂.now
  · have hzero : runsToday (db.insert "manual").jobs db₂.now = 0 := runsToday_eq_zero hday
    rw [if_pos hday, hzero]
  · rw [if_neg hday, ← runsToday_insert "manual"]
    -- the clock has not gone back, so it is the same day
    have hle := h.now_le
    rw [hnow] at hle
    have hsame : todayStart db₂.now = todayStart db.now :=
      Int.le_antisymm (Int.not_lt.mp hday) (todayStart_mono hle)
    unfold runsToday
    rw [hsame]

/-- A run that is taken ends with its job `COMPLETED` or `FAILED`. -/
theorem runJob_status {job : DiscoveryJob} (hjob : db.job jobId = some job) :
    ∃ job, (runJob db jobId run).1.job jobId = some job ∧ job.status ≠ .pending := by
  unfold runJob
  dsimp only
  rw [DiscoveryDb.job_update_self, DiscoveryDb.job_tick, DiscoveryDb.job_update_self, hjob]
  refine ⟨_, rfl, ?_⟩
  cases run.outcome with
  | ok result => simp [JobProgress.finish]
  | error exc => simp [JobProgress.finish]

/-- The task takes a run whose job waits exactly if the limit is not reached. -/
theorem limitsAgree_runDiscovery (hid : jobId ≠ 0)
    (hstatus : (db₂.job jobId).map (·.status) = some .pending) :
    LimitsAgree jobId (runDiscovery limit db₂ (some jobId) run) ↔
      runsToday db₂.jobs db₂.now < limit := by
  obtain ⟨job, hjob, hpending⟩ := Option.map_eq_some_iff.mp hstatus
  unfold runDiscovery
  by_cases hlimit : limit ≤ runsToday db₂.jobs db₂.now
  · rw [if_pos hlimit]
    constructor
    · intro h
      exact absurd rfl (h.1 _)
    · omega
  · rw [if_neg hlimit, Option.bind_some, if_neg hid, hjob]
    show LimitsAgree jobId (runJob db₂ job.id run) ↔ _
    have hkey : job.id = jobId := Table.key_of_get hjob
    rw [hkey]
    refine iff_of_true ⟨fun text => ?_, runJob_status hjob⟩ (by omega)
    unfold runJob
    cases run.outcome with
    | ok result => simp
    | error exc => simp

/-- An admitted run is taken by the task, and its job does not stay `PENDING`, exactly if the
limit leaves room for another run after it, or the task starts on a later day. -/
theorem limitsAgree_iff (limit : ℕ) (db db₂ : DiscoveryDb) (delay : Except String String)
    (response : DiscoveryTriggerResponse) (run : ServiceRun)
    (hadmitted : (triggerDiscovery limit db delay).2 = .ok response)
    (hmeanwhile : Meanwhile response.jobId (triggerDiscovery limit db delay).1 db₂) :
    LimitsAgree response.jobId (runDiscovery limit db₂ (some response.jobId) run) ↔
      runsToday db.jobs db.now + 1 < limit ∨ todayStart db.now < todayStart db₂.now := by
  obtain ⟨hlimit, hid, hnow, hruns, hpending⟩ := triggerDiscovery_ok hadmitted
  have hstatus := hmeanwhile.status
  rw [hid, hpending] at hstatus
  have hpos := db.nextId_pos
  rw [hid, limitsAgree_runDiscovery (by omega) hstatus,
    runsToday_meanwhile hnow hruns hmeanwhile]
  by_cases hday : todayStart db.now < todayStart db₂.now
  · rw [if_pos hday]
    exact iff_of_true (by omega) (.inr hday)
  · rw [if_neg hday, or_iff_left hday]

/-- No run so far. -/
def noJobs (now : Time) : DiscoveryDb where
  now := now
  jobs := []
  nextId := 1
  nextId_pos := Nat.one_pos
  id_lt := fun _ hjob => nomatch hjob
  created_le := fun _ hjob => nomatch hjob

/-- The first of two runs, taken a second after it was triggered. -/
theorem limitsAgree_first :
    LimitsAgree 1 (runDiscovery 2 ((triggerDiscovery 2 (noJobs 0) (.ok "a")).1.tick 1000000)
      (some 1) ⟨60000000, .ok {}⟩) :=
  (limitsAgree_iff 2 (noJobs 0) _ (.ok "a") ⟨"a", 1, "Discovery task dispatched"⟩ _ rfl
    (Meanwhile.tick 1000000)).mpr (.inl (by decide))

/-- With a limit of one, the only run of the day is admitted and then rejected. -/
theorem lastRun_rejected :
    ∃ (response : DiscoveryTriggerResponse) (db₂ : DiscoveryDb),
      (triggerDiscovery 1 (noJobs 0) (.ok "a")).2 = .ok response ∧
        Meanwhile response.jobId (triggerDiscovery 1 (noJobs 0) (.ok "a")).1 db₂ ∧
        (runDiscovery 1 db₂ (some response.jobId) ⟨60000000, .ok {}⟩).2 =
          .limitReached "daily discovery limit reached (1/day)" ∧
        ¬ LimitsAgree response.jobId
          (runDiscovery 1 db₂ (some response.jobId) ⟨60000000, .ok {}⟩) := by
  refine ⟨_, _, rfl, Meanwhile.refl _ _, by decide +kernel, fun h => ?_⟩
  exact h.1 "daily discovery limit reached (1/day)" (by decide +kernel)

end LeadPulse
