import LeadPulse.Pipeline.World

/-!
# What a step can do

`Move` lists what a step of the pipeline can be, with the state it leads to and what is
known of the worker that takes it; `step_move` is the inversion of `step`. The invariants of
the pipeline are proved by cases on a `Move`.

The events that touch no signal, no execution and no lock are listed apart, in `Write`: what
most invariants need of them is in `Quiet`.
-/

namespace LeadPulse

namespace BackgroundOp

/-- The time of the last notification of a company, if there is such a company. -/
abbrev notified (db : LeadTables) (companyId : ℕ) : Option (Option Time) :=
  (db.company companyId).map (·.slackNotifiedAt)

end BackgroundOp

namespace LeadTables

open BackgroundOp (notified)

theorem company_modifyCompany (db : LeadTables) (companyId id : ℕ) {f : Company → Company}
    (hf : ∀ c, (f c).id = c.id) : (db.modifyCompany companyId f).company id =
      if id = companyId then (db.company id).map f else db.company id :=
  Table.get_modify hf

/-- An update of a row that keeps the time of the last notification. -/
theorem notified_modifyCompany (db : LeadTables) (companyId id : ℕ) {f : Company → Company}
    (hid : ∀ c, (f c).id = c.id) (hf : ∀ c, (f c).slackNotifiedAt = c.slackNotifiedAt) :
    notified (db.modifyCompany companyId f) id = notified db id := by
  unfold notified
  rw [company_modifyCompany db companyId id hid]
  split
  · rw [Option.map_map]
    congr 1
    funext c
    exact hf c
  · rfl

theorem notified_updateTask (db : LeadTables) (integration : CRMIntegration) (task : ClickUpTask)
    (id : ℕ) : notified (db.updateTask integration task) id = notified db id := by
  unfold updateTask
  split
  · exact notified_modifyCompany (db.modifyIntegration _ _) _ id (fun _ => rfl) fun _ => rfl
  · rfl

theorem notified_pushLoaded {cfg : ClickUpConfig} {db db' : LeadTables} {c : Company}
    {answers : ClickUpAnswers} (h : pushLoaded cfg db c answers = .ok db') (id : ℕ) :
    notified db' id = notified db id := by
  unfold pushLoaded at h
  split at h
  · rename_i integration _
    cases hu : answers.updateTask with
    | error e => simp [hu, Except.map] at h
    | ok task =>
      rw [hu] at h
      cases h
      exact notified_updateTask db integration task id
  · -- an existing task is linked, or a new one is made
    split at h
    · cases h
    · cases h
      exact notified_modifyCompany (db.addIntegration _) _ id (fun _ => rfl) fun _ => rfl
    · cases hc : answers.createTask with
      | error e => simp [hc, Except.map] at h
      | ok task =>
        rw [hc] at h
        cases h
        exact notified_modifyCompany (db.addIntegration _) _ id (fun _ => rfl) fun _ => rfl

/-- No background service writes the time of the last notification. -/
theorem notified_apply (now : Time) (db : LeadTables) (op : BackgroundOp) (id : ℕ) :
    notified (op.apply now db) id = notified db id := by
  cases op with
  | scoreCompany companyId leadScore =>
    exact notified_modifyCompany db companyId id (fun _ => rfl) fun _ => rfl
  | scanLinkedin companyId =>
    exact notified_modifyCompany db companyId id (fun _ => rfl) fun _ => rfl
  | syncStatus companyId answer =>
    show notified ((db.syncStatus companyId answer).toOption.getD db) id = _
    unfold syncStatus
    split
    · rfl
    · rfl
    · split
      · rfl
      · rfl
      · split
        · exact notified_modifyCompany (db.modifyIntegration _ _) _ id (fun _ => rfl) fun _ => rfl
        · rfl

/-- No job writes it either. -/
theorem notified_resume (cfg : ClickUpConfig) (db : LeadTables) (answers : ClickUpAnswers)
    (job : CompanyJob) (id : ℕ) :
    notified (job.resume cfg db answers).1 id = notified db id := by
  cases job with
  | enriching companyId =>
    exact notified_modifyCompany db companyId id (fun _ => rfl) fun _ => rfl
  | pushing companies =>
    cases companies with
    | nil => rfl
    | cons company companies =>
      show notified ((db.pushLoaded cfg company answers).toOption.getD db) id = _
      cases h : pushLoaded cfg db company answers with
      | error e => rfl
      | ok db' => exact notified_pushLoaded h id

end LeadTables

namespace World

open BackgroundOp (notified)

/-- What the events that touch no signal, no execution and no lock leave alone. -/
structure Quiet (w w' : World) : Prop where
  now : w.now ≤ w'.now
  signals : w'.signals = w.signals
  auditLogs : w'.auditLogs = w.auditLogs
  analyses : w'.analyses = w.analyses
  dispatches : w'.dispatches = w.dispatches
  locks : w'.locks = w.locks
  deliveries : w'.deliveries = w.deliveries
  executions : w'.executions = w.executions
  awaiting : w'.awaiting = w.awaiting
  missed : w'.missed = w.missed
  /-- No signal's execution dispatches an enrichment. -/
  enrichments : ∃ new, w'.enrichments = w.enrichments ++ new ∧ ∀ x ∈ new, x.signalId = none
  /-- A company is new, or its last notification is what it was. -/
  notified : ∀ id, notified w'.leads id = notified w.leads id ∨
    (w.company id = none ∧ notified w'.leads id = some none)

/-- The steps that write companies, jobs or the history of enrichments only. -/
inductive Write (cfg : PipelineConfig) (w : World) : Event → World → Prop where
  /-- A request that is refused. -/
  | nothing {ev} : Write cfg w ev w
  | tick (d : Time) (hd : 0 ≤ d) : Write cfg w (.tick d) { w with now := w.now + d }
  | addCompany (c : Company) (hfresh : w.company c.id = none) (hc : c.slackNotifiedAt = none) :
      Write cfg w (.addCompany c)
        { w with leads := { w.leads with companies := w.leads.companies ++ [c] }
                 archived := if c.status = .archived then w.archived ++ [c.id] else w.archived }
  | setStatus (companyId : ℕ) (status : CompanyStatus)
      (h : (w.company companyId).any (·.status ≠ .archived) = true) :
      Write cfg w (.setStatus companyId status)
        { w with leads := w.leads.modifyCompany companyId fun c => { c with status := status }
                 archived := if status = .archived then w.archived ++ [companyId]
                   else w.archived }
  | addJob (companyId : ℕ) :
      Write cfg w (.addJob companyId)
        { w with enrichmentJobs :=
                  w.enrichmentJobs ++ [{ companyId := companyId, createdAt := w.now }] }
  | triggerEnrich (companyId : ℕ) (delay : Except String Unit)
      (hc : (w.company companyId).any (·.status ≠ .archived) = true)
      (hlimit : jobsToday w.enrichmentJobs w.now < cfg.maxEnrichmentsPerDay) :
      Write cfg w (.triggerEnrich companyId delay)
        { w with
          enrichmentJobs := w.enrichmentJobs ++ [{ companyId := companyId, createdAt := w.now }]
          enrichments := w.enrichments ++ if delay.isOk then
            [{ companyId := companyId, hasJob := true, time := w.now }] else [] }
  | enrichAllDiscovered (order : List ℕ) (h : order.Perm w.discoveredIds) :
      Write cfg w (.enrichAllDiscovered order)
        { w with enrichments := w.enrichments ++ w.enrichBatch cfg order }
  | background (op : BackgroundOp) :
      Write cfg w (.background op) { w with leads := op.apply w.now w.leads }
  /-- A company job starts or is cancelled. -/
  | setJob {ev} (i : ℕ) (job : Option CompanyJob) : Write cfg w ev (w.setJob i job)
  | resume (i : ℕ) (answers : ClickUpAnswers) (job : CompanyJob)
      (h : w.companyJobs i = some job) :
      Write cfg w (.resume i answers)
        { w.setJob i (job.resume cfg.clickUp w.leads answers).2 with
          leads := (job.resume cfg.clickUp w.leads answers).1 }

/-- The steps of the pipeline. -/
inductive Move (cfg : PipelineConfig) (w : World) : Event → World → Prop where
  | write {ev w'} (h : Write cfg w ev w') : Move cfg w ev w'
  | addSignal {ev} (s : Signal) (hfresh : w.signal s.id = none) (hp : s.isProcessed = false)
      (ha : s.actionTaken = none) (he : s.actionExecutedAt = none) :
      Move cfg w ev { w with signals := w.signals ++ [s] }
  /-- An analysis starts on the row as it is, or goes on with the signal it has. -/
  | analysis {ev} (i : ℕ) (a : Analysis)
      (h : (w.signal a.signal.id = some a.signal ∧ a.Valid) ∨
        ∃ a₀, w.analyses i = some a₀ ∧ a.signal = a₀.signal ∧ (a₀.Valid → a.Valid)) :
      Move cfg w ev { w with analyses := Function.update w.analyses i (some a) }
  | analysisEnds {ev} (i : ℕ) :
      Move cfg w ev { w with analyses := Function.update w.analyses i none }
  | verdict (i : ℕ) (l v : Signal) (h : w.analyses i = some (.committing l v)) :
      Move cfg w (.conclude i) (w.commitVerdict i l v)
  | start (i signalId : ℕ) (slack : Bool) (d : Dispatch) (hfree : w.dispatches i = none)
      (h : Dispatch.load w.signals w.leads.companies slack signalId = .ok d) :
      Move cfg w (.execute i signalId slack) (w.setDispatch i d)
  | enrich (i : ℕ) (s : Signal) (c : Option Company) (delay : Except String Unit)
      (h : w.dispatches i = some (.counting s c)) :
      Move cfg w (.enrich i delay) (w.enrichStep cfg i s c delay)
  /-- There is no company to lock. -/
  | unlocked (i : ℕ) (s : Signal) (h : w.dispatches i = some (.locking s))
      (hc : w.company s.companyId = none) :
      Move cfg w (.lock i) (w.setDispatch i (.committing { signal := s }))
  /-- The company is locked, and cooling down. -/
  | suppressed (i : ℕ) (s : Signal) (c : Company) (h : w.dispatches i = some (.locking s))
      (hc : w.company s.companyId = some c) (hfree : w.locks s.companyId = none)
      (hcool : Dispatch.coolingDown c w.now = true) :
      Move cfg w (.lock i)
        { w with locks := Function.update w.locks s.companyId (some i)
                 dispatches := Function.update w.dispatches i (some (.committing { signal := s }))
                 awaiting := w.awaiting ++ [s.id] }
  | locked (i : ℕ) (s : Signal) (c : Company) (h : w.dispatches i = some (.locking s))
      (hc : w.company s.companyId = some c) (hfree : w.locks s.companyId = none)
      (hcool : Dispatch.coolingDown c w.now = false) :
      Move cfg w (.lock i)
        { w with locks := Function.update w.locks s.companyId (some i)
                 dispatches := Function.update w.dispatches i (some (.collecting s c)) }
  | collect (i : ℕ) (s : Signal) (c : Company) (h : w.dispatches i = some (.collecting s c)) :
      Move cfg w (.collect i)
        (w.setDispatch i (.sending s c (Dispatch.pendingSignals w.signals s)))
  | deliver (i : ℕ) (s : Signal) (c : Company) (pending : List Signal)
      (result : Except String Bool) (h : w.dispatches i = some (.sending s c pending)) :
      Move cfg w (.deliver i result)
        (w.setDispatch i (.committing (Dispatch.deliver s w.now result)))
  | finish (i : ℕ) (e : Execution) (h : w.dispatches i = some (.committing e))
      (hmay : writesCompany e → w.mayWrite i e.signal.companyId) :
      Move cfg w (.finish i) (w.commitExecution i e)
  | crash (i : ℕ) :
      Move cfg w (.crash i)
        { w with dispatches := Function.update w.dispatches i none, locks := w.release i }
  | digest : Move cfg w .digest w.sendDigest

/-- A new company has not been notified. -/
theorem notified_addCompany {w : World} {c : Company} (hfresh : w.company c.id = none)
    (hc : c.slackNotifiedAt = none) (id : ℕ) :
    notified { w.leads with companies := w.leads.companies ++ [c] } id = notified w.leads id ∨
      (w.company id = none ∧
        notified { w.leads with companies := w.leads.companies ++ [c] } id = some none) := by
  unfold notified
  by_cases hid : c.id = id
  · subst hid
    right
    refine ⟨hfresh, ?_⟩
    show (Table.get Company.id (w.leads.companies ++ [c]) c.id).map _ = some none
    rw [Table.get_append_of_none hfresh, if_pos rfl]
    simp [hc]
  · left
    show (Table.get Company.id (w.leads.companies ++ [c]) id).map _ =
      (Table.get Company.id w.leads.companies id).map _
    cases hg : Table.get Company.id w.leads.companies id with
    | none => rw [Table.get_append_of_none hg, if_neg hid]
    | some r => rw [Table.get_append_of_some hg]

theorem quiet_refl (w : World) : Quiet w w :=
  ⟨Int.le_refl _, rfl, rfl, rfl, rfl, rfl, rfl, rfl, rfl, rfl,
    ⟨[], (List.append_nil _).symm, fun _ hx => nomatch hx⟩, fun _ => .inl rfl⟩

theorem Write.quiet {cfg : PipelineConfig} {w w' : World} {ev : Event} (h : Write cfg w ev w') :
    Quiet w w' := by
  have hq := quiet_refl w
  cases h with
  | nothing => exact hq
  | tick d hd => exact { hq with now := Int.le_add_of_nonneg_right hd }
  | addCompany c hfresh hc => exact { hq with notified := notified_addCompany hfresh hc }
  | setStatus companyId status h =>
    have hnotified := LeadTables.notified_modifyCompany w.leads companyId
      (f := fun c => { c with status := status })
    exact { hq with notified := fun id => Or.inl (hnotified id (fun _ => rfl) fun _ => rfl) }
  | addJob companyId => exact { hq with }
  | triggerEnrich companyId delay hc hlimit =>
    refine { hq with enrichments := ⟨_, rfl, fun x hx => ?_⟩ }
    split at hx
    · obtain rfl := List.mem_singleton.mp hx
      rfl
    · cases hx
  | enrichAllDiscovered order h =>
    refine { hq with enrichments := ⟨_, rfl, fun x hx => ?_⟩ }
    obtain ⟨companyId, _, rfl⟩ := List.mem_map.mp hx
    rfl
  | background op =>
    have hnotified := LeadTables.notified_apply w.now w.leads op
    exact { hq with notified := fun id => Or.inl (hnotified id) }
  | setJob i job => exact { hq with }
  | resume i answers job h =>
    have hnotified := LeadTables.notified_resume cfg.clickUp w.leads answers job
    exact { hq with notified := fun id => Or.inl (hnotified id) }

/-- An analysis that has been answered. -/
theorem move_proceed {cfg : PipelineConfig} {w : World} {ev : Event} {i : ℕ} {o : Outcome}
    (h : ∀ a, o = .running a → (w.signal a.signal.id = some a.signal ∧ a.Valid) ∨
      ∃ a₀, w.analyses i = some a₀ ∧ a.signal = a₀.signal ∧ (a₀.Valid → a.Valid)) :
    Move cfg w ev (w.proceed i o) := by
  cases o with
  | running a => exact .analysis i a (h a rfl)
  | returned b => exact .analysisEnds i
  | raised => exact .analysisEnds i

theorem write_triggerEnrich {cfg : PipelineConfig} {w : World} {companyId : ℕ}
    {delay : Except String Unit} :
    Write cfg w (.triggerEnrich companyId delay) (w.triggerEnrich cfg companyId delay) := by
  unfold triggerEnrich
  split
  · exact .nothing
  · rename_i c hc
    split
    · exact .nothing
    · rename_i hrefused
      obtain ⟨hactive, hlimit⟩ := not_or.mp hrefused
      exact .triggerEnrich companyId delay (by simp [hc, hactive]) (by omega)

theorem move_lockStep {cfg : PipelineConfig} {w w' : World} {i : ℕ} {s : Signal}
    (hd : w.dispatches i = some (.locking s)) (h : w.lockStep i s = some w') :
    Move cfg w (.lock i) w' := by
  unfold lockStep at h
  split at h
  · rename_i hc
    cases h
    exact .unlocked i s hd hc
  · rename_i c hc
    split at h
    · cases h
    · rename_i hfree
      have hfree : w.locks s.companyId = none := by simpa using hfree
      dsimp only at h
      split at h
      · rename_i hcool
        cases h
        exact .suppressed i s c hd hc hfree hcool
      · rename_i hcool
        cases h
        exact .locked i s c hd hc hfree (by simpa using hcool)

/-- The inversion of `step`. -/
theorem step_move {cfg : PipelineConfig} {w w' : World} {ev : Event}
    (h : step cfg w ev = some w') : Move cfg w ev w' := by
  cases ev with
  | tick d =>
    simp only [step] at h
    split at h
    · rename_i hd
      cases h
      exact .write (.tick d hd)
    · cases h
  | addCompany c =>
    simp only [step] at h
    split at h
    · rename_i hc
      cases h
      exact .write (.addCompany c hc.1 hc.2)
    · cases h
  | setStatus companyId status =>
    simp only [step] at h
    split at h
    · rename_i hc
      cases h
      exact .write (.setStatus companyId status hc)
    · cases h
  | addSignal id companyId signalType rawContentHash rawMarkdown =>
    simp only [step] at h
    split at h
    · rename_i hfresh
      cases h
      exact .addSignal _ hfresh rfl rfl rfl
    · cases h
  | addJob companyId =>
    cases h
    exact .write (.addJob companyId)
  | triggerEnrich companyId delay =>
    cases h
    exact .write write_triggerEnrich
  | enrichAllDiscovered order =>
    simp only [step] at h
    split at h
    · rename_i horder
      cases h
      exact .write (.enrichAllDiscovered order horder)
    · cases h
  | background op =>
    cases h
    exact .write (.background op)
  | enrichCompany i companyId =>
    simp only [step] at h
    split at h
    · cases h
      exact .write (.setJob i _)
    · cases h
  | pushCompany i companyId =>
    simp only [step] at h
    split at h
    · cases h
      exact .write (.setJob i _)
    · cases h
  | syncQualified i order =>
    simp only [step] at h
    split at h
    · cases h
      exact .write (.setJob i _)
    · cases h
  | resume i answers =>
    simp only [step] at h
    split at h
    · rename_i job hjob
      cases h
      exact .write (.resume i answers job hjob)
    · cases h
  | cancel i =>
    cases h
    exact .write (.setJob i none)
  | digest =>
    cases h
    exact .digest
  | analyze i signalId =>
    simp only [step] at h
    split at h
    · cases h
      refine move_proceed fun a ha => .inl ?_
      obtain ⟨hrow, hvalid⟩ := Analysis.load_running ha
      refine ⟨?_, hvalid⟩
      have hid := Table.key_of_get hrow
      unfold signal
      rw [hid, hrow]
    · cases h
  | check i llm =>
    simp only [step] at h
    split at h
    · rename_i s hs
      cases h
      refine move_proceed fun a ha => .inr ⟨_, hs, ?_⟩
      obtain ⟨hsame, hvalid⟩ := Analysis.check_running ha
      exact ⟨hsame, fun hv => hvalid hv.unprocessed⟩
    · cases h
  | classify i answer =>
    simp only [step] at h
    split at h
    · rename_i s hs
      cases h
      refine move_proceed fun a ha => .inr ⟨_, hs, ?_⟩
      obtain ⟨hsame, hvalid⟩ := Analysis.classify_running ha
      exact ⟨hsame, fun hv => hvalid hv.unprocessed⟩
    · cases h
  | score i answer =>
    simp only [step] at h
    split at h
    · rename_i s t hs
      cases h
      refine move_proceed fun a ha => .inr ⟨_, hs, ?_⟩
      obtain ⟨hsame, hvalid⟩ := Analysis.score_running ha
      exact ⟨hsame, fun hv => hvalid hv.unprocessed⟩
    · cases h
  | conclude i =>
    simp only [step] at h
    split at h
    · rename_i l v hlv
      cases h
      exact .verdict i l v hlv
    · cases h
  | abandon i =>
    cases h
    exact .analysisEnds i
  | execute i signalId slack =>
    simp only [step] at h
    split at h
    · rename_i hfree
      split at h
      · rename_i d hd
        cases h
        exact .start i signalId slack d hfree hd
      · cases h
        exact .write .nothing
    · cases h
  | enrich i delay =>
    simp only [step] at h
    split at h
    · rename_i s c hd
      cases h
      exact .enrich i s c delay hd
    · cases h
  | lock i =>
    simp only [step] at h
    split at h
    · rename_i s hd
      exact move_lockStep hd h
    · cases h
  | collect i =>
    simp only [step] at h
    split at h
    · rename_i s c hd
      cases h
      exact .collect i s c hd
    · cases h
  | deliver i result =>
    simp only [step] at h
    split at h
    · rename_i s c pending hd
      cases h
      exact .deliver i s c pending result hd
    · cases h
  | finish i =>
    simp only [step] at h
    split at h
    · rename_i e hd
      split at h
      · rename_i hmay
        cases h
        exact .finish i e hd hmay
      · cases h
    · cases h
  | crash i =>
    cases h
    exact .crash i

/-! ## The state after an event -/

/-- The state after the commit of an execution. -/
theorem finish_eq {cfg : PipelineConfig} {w w' : World} {i : ℕ} {e : Execution}
    (hd : w.dispatches i = some (.committing e)) (hs : step cfg w (.finish i) = some w') :
    w' = w.commitExecution i e := by
  simp only [step, hd] at hs
  split at hs
  · exact (Option.some.inj hs).symm
  · cases hs

/-- The state after a commit of a company job. -/
theorem resume_eq {cfg : PipelineConfig} {w w' : World} {i : ℕ} {answers : ClickUpAnswers}
    {job : CompanyJob} (hj : w.companyJobs i = some job)
    (hs : step cfg w (.resume i answers) = some w') :
    w'.leads = (job.resume cfg.clickUp w.leads answers).1 ∧ w'.archived = w.archived := by
  simp only [step, hj, Option.some.injEq] at hs
  subst hs
  exact ⟨rfl, rfl⟩

end World
end LeadPulse
