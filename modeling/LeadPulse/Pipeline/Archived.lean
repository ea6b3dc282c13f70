import LeadPulse.Pipeline.Sound

/-!
# Archived companies

Three services write the status of a company in the background. `enrich_company` reads the
row again just before it writes; `_dispatch_enrich_further` and `_create_task` write whatever
the status has become. `executeArchived_revived` is a run in which the execution of a signal
takes an archived company to `MONITORING`.

`archivedKept_iff` says exactly when archived companies stay archived, for all runs.
-/

namespace LeadPulse

/-- The status of a company, if there is such a company. -/
def LeadTables.status (db : LeadTables) (companyId : ℕ) : Option CompanyStatus :=
  (db.company companyId).map (·.status)

/-- The companies that have been archived still are. -/
def ArchivedKept (w : World) : Prop := ∀ id ∈ w.archived, w.leads.status id = some .archived

/-- The row of the company is archived. -/
def isArchived (db : LeadTables) (companyId : ℕ) : Bool := db.status companyId = some .archived

/-- The push of a company ends in `_create_task`. -/
def createsTask (cfg : ClickUpConfig) (db : LeadTables) (company : Company)
    (answers : ClickUpAnswers) : Bool :=
  (db.integration company.id).isNone && answers.createTask.isOk &&
    match LeadTables.findExisting cfg db company answers with
    | .ok none => true
    | _ => false

/-- No archived company gets a new status: from an execution that sets the status of its
company, from an enrichment that has found its company discovered, or from a push that makes
a new task for a company that it has loaded in another status than `PUSHED`. -/
def sparesArchived (cfg : ClickUpConfig) (w : World) : Event → Bool
  | .finish i =>
    match w.dispatches i with
    | some (.committing e) => e.companyStatus.isNone ∨ ! isArchived w.leads e.signal.companyId
    | _ => true
  | .resume i answers =>
    match w.companyJobs i with
    | some (.enriching companyId) => ! isArchived w.leads companyId
    | some (.pushing (company :: _)) =>
      ! createsTask cfg w.leads company answers ∨ company.status = .pushed ∨
        ! isArchived w.leads company.id
    | _ => true
  | _ => true

/-! ## The status of the rows -/

namespace LeadTables

theorem status_modifyCompany (db : LeadTables) (companyId id : ℕ) {f : Company → Company}
    (hid : ∀ c, (f c).id = c.id) : (db.modifyCompany companyId f).status id =
      if id = companyId then (db.company id).map fun c => (f c).status else db.status id := by
  unfold status
  rw [company_modifyCompany db companyId id hid]
  split
  · rw [Option.map_map]
    rfl
  · rfl

/-- An update of a row that keeps the status. -/
theorem status_modifyCompany_same (db : LeadTables) (companyId id : ℕ) {f : Company → Company}
    (hid : ∀ c, (f c).id = c.id) (hf : ∀ c, (f c).status = c.status) :
    (db.modifyCompany companyId f).status id = db.status id := by
  rw [status_modifyCompany db companyId id hid]
  simp only [hf]
  exact ite_self _

/-- An update that sets the status of a row. -/
theorem status_modifyCompany_set (db : LeadTables) (companyId id : ℕ) {f : Company → Company}
    {s : CompanyStatus} (hid : ∀ c, (f c).id = c.id) (hf : ∀ c, (f c).status = s) :
    (db.modifyCompany companyId f).status id =
      if id = companyId then (db.status id).map fun _ => s else db.status id := by
  rw [status_modifyCompany db companyId id hid]
  simp only [hf]
  unfold status
  rw [Option.map_map]
  rfl

theorem status_apply (now : Time) (db : LeadTables) (op : BackgroundOp) (id : ℕ) :
    (op.apply now db).status id = db.status id := by
  cases op with
  | scoreCompany companyId leadScore =>
    exact status_modifyCompany_same db companyId id (fun _ => rfl) fun _ => rfl
  | scanLinkedin companyId =>
    exact status_modifyCompany_same db companyId id (fun _ => rfl) fun _ => rfl
  | syncStatus companyId answer =>
    show ((db.syncStatus companyId answer).toOption.getD db).status id = _
    unfold syncStatus
    split
    · rfl
    · rfl
    · split
      · rfl
      · rfl
      · split
        · exact status_modifyCompany_same (db.modifyIntegration _ _) _ id (fun _ => rfl)
            fun _ => rfl
        · rfl

theorem status_updateTask (db : LeadTables) (integration : CRMIntegration) (task : ClickUpTask)
    (id : ℕ) : (db.updateTask integration task).status id = db.status id := by
  unfold updateTask
  split
  · exact status_modifyCompany_same (db.modifyIntegration _ _) _ id (fun _ => rfl) fun _ => rfl
  · rfl

/-- A new task sets the status of the company, unless it was loaded as `PUSHED`. -/
theorem status_createTask (db : LeadTables) (company : Company) (task : ClickUpTask) (id : ℕ) :
    (db.createTask company task).status id =
      if id = company.id ∧ company.status ≠ .pushed then (db.status id).map fun _ => .pushed
      else db.status id := by
  refine (status_modifyCompany (db.addIntegration _) company.id id (by exact fun _ => rfl)).trans ?_
  by_cases hp : company.status = .pushed
  · simp only [hp, if_true, ne_eq, not_true_eq_false, and_false, if_false]
    exact ite_self _
  · simp only [hp, if_false, ne_eq, not_false_eq_true, and_true]
    unfold status
    rw [Option.map_map]
    rfl

/-- A push either makes a new task or leaves the status of all companies alone. -/
theorem status_push (cfg : ClickUpConfig) (db : LeadTables) (company : Company)
    (answers : ClickUpAnswers) :
    (createsTask cfg db company answers = true ∧
      ∃ task, (db.pushLoaded cfg company answers).toOption.getD db = db.createTask company task) ∨
    (createsTask cfg db company answers = false ∧
      ∀ id, ((db.pushLoaded cfg company answers).toOption.getD db).status id = db.status id) := by
  unfold pushLoaded createsTask
  cases hi : db.integration company.id with
  | some integration =>
    refine Or.inr ⟨rfl, fun id => ?_⟩
    cases answers.updateTask with
    | error e => rfl
    | ok task => exact status_updateTask db integration task id
  | none =>
    cases hf : findExisting cfg db company answers with
    | error e => exact Or.inr ⟨Bool.and_false _, fun id => rfl⟩
    | ok existing =>
      cases existing with
      | some task =>
        refine Or.inr ⟨Bool.and_false _, fun id => ?_⟩
        exact status_modifyCompany_same (db.addIntegration _) _ id (fun _ => rfl) fun _ => rfl
      | none =>
        -- only here the status is written
        cases answers.createTask with
        | error e => exact Or.inr ⟨rfl, fun id => rfl⟩
        | ok task => exact Or.inl ⟨rfl, task, rfl⟩

/-- A new company does not touch the others. -/
theorem status_addCompany {db : LeadTables} {c : Company} (hfresh : db.company c.id = none)
    (id : ℕ) : { db with companies := db.companies ++ [c] }.status id =
      if id = c.id then some c.status else db.status id := by
  unfold status company at *
  by_cases hid : id = c.id
  · subst hid
    rw [if_pos rfl, Table.get_append_of_none hfresh, if_pos rfl]
    rfl
  · rw [if_neg hid]
    cases hg : Table.get Company.id db.companies id with
    | none => rw [Table.get_append_of_none hg, if_neg (Ne.symm hid)]
    | some r => rw [Table.get_append_of_some hg]

/-- The commit of an execution. -/
theorem status_finish (db : LeadTables) (e : Execution) (companyId id : ℕ) :
    (db.modifyCompany companyId (World.finishCompany e)).status id =
      if id = companyId then (db.status id).map fun s => e.companyStatus.getD s
      else db.status id := by
  refine (status_modifyCompany db companyId id (by exact fun _ => rfl)).trans ?_
  unfold status
  rw [Option.map_map]
  rfl

end LeadTables

/-! ## The invariant -/

/-- The archived companies of the table are those that have been archived. -/
def ArchivedExactly (leads : LeadTables) (archived : List ℕ) : Prop :=
  ∀ id, id ∈ archived ↔ leads.status id = some .archived

namespace ArchivedExactly

variable {leads leads' : LeadTables} {archived : List ℕ} {companyId : ℕ}

theorem init : ArchivedExactly { companies := [], integrations := [] } [] := by
  intro id
  constructor
  · exact fun h => nomatch h
  · exact fun h => nomatch h

theorem congr (h : ArchivedExactly leads archived) (hs : ∀ id, leads'.status id = leads.status id) :
    ArchivedExactly leads' archived := by
  intro id
  rw [hs id]
  exact h id

/-- A new status, of a company that was not archived. -/
theorem set (h : ArchivedExactly leads archived) {s : CompanyStatus} (hs : s ≠ .archived)
    (hne : leads.status companyId ≠ some .archived)
    (hset : ∀ id, leads'.status id =
      if id = companyId then (leads.status id).map fun _ => s else leads.status id) :
    ArchivedExactly leads' archived := by
  intro id
  rw [h id, hset id]
  split
  · -- neither before nor after is the row archived
    rename_i hid
    subst hid
    constructor
    · exact fun harch => absurd harch hne
    · intro harch
      obtain ⟨s', _, hs'⟩ := Option.map_eq_some_iff.mp harch
      exact absurd hs' hs
  · rfl

theorem addCompany (h : ArchivedExactly leads archived) {c : Company}
    (hfresh : leads.company c.id = none) :
    ArchivedExactly { leads with companies := leads.companies ++ [c] }
      (if c.status = .archived then archived ++ [c.id] else archived) := by
  intro id
  rw [LeadTables.status_addCompany hfresh]
  have hnot : c.id ∉ archived := by
    rw [h c.id]
    simp [LeadTables.status, hfresh]
  by_cases hid : id = c.id
  · subst hid
    rw [if_pos rfl]
    split
    · rename_i hc
      simp [hc]
    · rename_i hc
      simp [hc, hnot]
  · rw [if_neg hid, ← h id]
    split
    · simp [hid]
    · rfl

/-- A user sets the status of a company that is not archived. -/
theorem setStatus (h : ArchivedExactly leads archived) {status : CompanyStatus}
    (hrow : (leads.company companyId).any (·.status ≠ .archived) = true) :
    ArchivedExactly (leads.modifyCompany companyId fun c => { c with status := status })
      (if status = .archived then archived ++ [companyId] else archived) := by
  have hset := fun id => LeadTables.status_modifyCompany_set leads companyId id
    (f := fun c => { c with status := status }) (fun _ => rfl) fun _ => rfl
  cases hc : leads.company companyId with
  | none => simp [hc] at hrow
  | some c =>
    have hs : leads.status companyId = some c.status := by simp [LeadTables.status, hc]
    by_cases hst : status = .archived
    · intro id
      rw [if_pos hst, hset id]
      by_cases hid : id = companyId
      · subst hid
        simp [hs, hst]
      · simp [hid, h id]
    · rw [if_neg hst]
      refine h.set hst ?_ hset
      rw [hs]
      simpa [hc] using hrow

/-- A job goes on, and spares archived companies. -/
theorem resume (h : ArchivedExactly leads archived) {cfg : ClickUpConfig}
    {answers : ClickUpAnswers} {job : CompanyJob}
    (henrich : ∀ id, job = .enriching id → leads.status id ≠ some .archived)
    (hpush : ∀ c cs, job = .pushing (c :: cs) → createsTask cfg leads c answers = true →
      c.status ≠ .pushed → leads.status c.id ≠ some .archived) :
    ArchivedExactly (job.resume cfg leads answers).1 archived := by
  cases job with
  | enriching id =>
    refine h.set (s := .enriched) (fun hs => nomatch hs) (henrich id rfl) fun k => ?_
    exact LeadTables.status_modifyCompany_set leads id k (fun _ => rfl) fun _ => rfl
  | pushing companies =>
    cases companies with
    | nil => exact h
    | cons c companies =>
      show ArchivedExactly ((leads.pushLoaded cfg c answers).toOption.getD leads) archived
      rcases LeadTables.status_push cfg leads c answers with ⟨hcreates, task, heq⟩ | ⟨_, hsame⟩
      · rw [heq]
        have hstatus := LeadTables.status_createTask leads c task
        by_cases hp : c.status = .pushed
        · exact h.congr fun id => by rw [hstatus id, if_neg fun hn => hn.2 hp]
        · refine h.set (s := .pushed) (fun hs => nomatch hs) (hpush c companies rfl hcreates hp) ?_
          intro id
          rw [hstatus id]
          simp [hp]
      · exact h.congr hsame

/-- The commit of an execution that spares archived companies. -/
theorem finish (h : ArchivedExactly leads archived) {e : Execution}
    (hstatus : ∀ s, e.companyStatus = some s → s = .monitoring)
    (hspares : e.companyStatus ≠ none → leads.status companyId ≠ some .archived) :
    ArchivedExactly (leads.modifyCompany companyId (World.finishCompany e)) archived := by
  have hrow := LeadTables.status_finish leads e companyId
  cases he : e.companyStatus with
  | none =>
    refine h.congr fun id => ?_
    rw [hrow id, he]
    split
    · simp
    · rfl
  | some s =>
    obtain rfl := hstatus s he
    refine h.set (s := .monitoring) (fun hs => nomatch hs) (hspares (by simp [he])) fun id => ?_
    rw [hrow id, he]
    rfl

end ArchivedExactly

namespace World

theorem archived_step {cfg : PipelineConfig} {w w' : World} {ev : Event}
    (hsound : Sound w.signals w.analyses w.dispatches) (h : ArchivedExactly w.leads w.archived)
    (hc : sparesArchived cfg.clickUp w ev = true) (hs : step cfg w ev = some w') :
    ArchivedExactly w'.leads w'.archived := by
  cases step_move hs with
  | write hw =>
    cases hw with
    | addCompany c hfresh _ => exact h.addCompany hfresh
    | setStatus companyId status hrow => exact h.setStatus hrow
    | background op => exact h.congr (LeadTables.status_apply w.now w.leads op)
    | resume i answers job hj =>
      refine h.resume ?_ ?_
      · rintro id rfl harch
        simp [sparesArchived, hj, isArchived, harch] at hc
      · rintro c cs rfl hcreates hp harch
        simp [sparesArchived, hj, isArchived, harch, hcreates, hp] at hc
    | _ => exact h
  | finish i e hd hmay =>
    refine h.finish ((hsound.dispatch i _ hd).1.status e · rfl) fun hne harch => ?_
    simp [sparesArchived, hd, isArchived, harch, hne] at hc
  | _ => exact h

/-- A step that does not spare an archived company gives it another status. -/
theorem archived_lost {cfg : PipelineConfig} {w w' : World} {ev : Event}
    (hsound : Sound w.signals w.analyses w.dispatches) (h : ArchivedExactly w.leads w.archived)
    (hc : ¬ sparesArchived cfg.clickUp w ev = true) (hs : step cfg w ev = some w') :
    ¬ ArchivedKept w' := by
  -- it is enough to name an archived company whose row has another status now
  have hlost : ∀ id s, w'.archived = w.archived → isArchived w.leads id = true →
      w'.leads.status id = some s → s ≠ .archived → ¬ ArchivedKept w' := by
    intro id s harch hid hnow hne hkept
    have hmem : id ∈ w.archived := (h id).mpr (of_decide_eq_true hid)
    rw [← harch] at hmem
    rw [hkept id hmem] at hnow
    exact hne (Option.some.inj hnow).symm
  cases ev with
  | finish i =>
    simp only [sparesArchived] at hc
    split at hc
    · rename_i e hd
      simp only [decide_eq_true_eq, not_or, Bool.not_eq_true', Bool.not_eq_false] at hc
      obtain ⟨hsome, harch⟩ := hc
      cases he : e.companyStatus with
      | none => simp [he] at hsome
      | some s =>
        have hmon := (hsound.dispatch i _ hd).1.status e s rfl he
        rw [finish_eq hd hs] at hlost ⊢
        refine hlost e.signal.companyId s rfl harch ?_ (by rw [hmon]; exact fun hn => nomatch hn)
        show (w.leads.modifyCompany _ (finishCompany e)).status _ = _
        rw [LeadTables.status_finish, if_pos rfl, of_decide_eq_true harch, he]
        rfl
    · exact absurd rfl hc
  | resume i answers =>
    simp only [sparesArchived] at hc
    split at hc
    · rename_i id hj
      have harch : isArchived w.leads id = true := by simpa using hc
      obtain ⟨hleads, hsame⟩ := resume_eq hj hs
      refine hlost id .enriched hsame harch ?_ fun hn => nomatch hn
      rw [hleads]
      have hset := LeadTables.status_modifyCompany_set w.leads id id
        (f := fun c => { c with status := .enriched }) (fun _ => rfl) fun _ => rfl
      rw [if_pos rfl, of_decide_eq_true harch] at hset
      exact hset
    · rename_i c cs hj
      simp only [decide_eq_true_eq, not_or, Bool.not_eq_true', Bool.not_eq_false] at hc
      obtain ⟨hcreates, hp, harch⟩ := hc
      obtain ⟨hleads, hsame⟩ := resume_eq hj hs
      refine hlost c.id .pushed hsame harch ?_ fun hn => nomatch hn
      rw [hleads]
      show ((w.leads.pushLoaded cfg.clickUp c answers).toOption.getD w.leads).status c.id = _
      rcases LeadTables.status_push cfg.clickUp w.leads c answers with ⟨_, task, heq⟩ | ⟨hnot, _⟩
      · rw [heq, LeadTables.status_createTask, if_pos ⟨rfl, hp⟩, of_decide_eq_true harch]
        rfl
      · rw [hcreates] at hnot
        cases hnot
    · exact absurd rfl hc
  | _ => exact absurd rfl hc

end World

/-- Archived companies stay archived all along a run, exactly if no step of a background
service gives an archived company a new status. -/
theorem archivedKept_iff (cfg : PipelineConfig) (t : Time) (events : List Event) :
    Run.AllStates (World.step cfg) ArchivedKept (World.init t) events ↔
      Run.AllSteps (World.step cfg) (fun w ev => sparesArchived cfg.clickUp w ev = true)
        (World.init t) events := by
  refine Run.allStates_iff_allSteps (I := fun w : World => Sound w.signals w.analyses w.dispatches ∧
    ArchivedExactly w.leads w.archived) (fun w hw id => (hw.2 id).mp) ?_ ?_
    ⟨Sound.init, ArchivedExactly.init⟩ events
  · intro w ev w' ⟨hsound, h⟩ hc hs
    exact ⟨World.sound_step hsound hs, World.archived_step hsound h hc hs⟩
  · intro w ev w' ⟨hsound, h⟩ hc hs
    exact World.archived_lost hsound h hc hs

/-- A company is archived, and the execution of one of its signals, which was queued before,
runs afterwards. -/
def executeArchived : List Event :=
  [.addCompany { id := 1, name := [], domain := [] }] ++ analysedSignal 1 1 30 ++
  [.setStatus 1 .archived, .execute 0 1 true, .enrich 0 (.ok ()), .finish 0]

/-- The company is monitored again. -/
theorem executeArchived_revived :
    ¬ Run.AllStates (World.step {}) ArchivedKept (World.init 0) executeArchived := by
  refine Run.not_allStates (q := fun w =>
    w.archived = [1] ∧ w.leads.status 1 = some .monitoring) (fun w hw => ?_) ?_
  · refine decide_eq_false fun hq => ?_
    have h1 := hw 1 (by rw [hq.1]; exact List.mem_singleton_self 1)
    rw [hq.2] at h1
    cases h1
  · decide +kernel

end LeadPulse
