import LeadPulse.Pipeline.Moves

/-!
# The daily enrichment limit

Three paths enrich companies, and each compares `max_enrichments_per_day` with the number of
rows that `enrichment_jobs` has got today. Only `trigger_enrich` adds such a row: the
enrichments of the other two are not counted, and `uncounted_exceeds` is a run in which the
limit has no effect.

`withinLimit_of_roomForUncounted` says when the limit is kept: in every run in which no check
passes that would have failed with these enrichments counted.
-/

namespace LeadPulse

/-- The enrichments of the day of `now`. -/
def enrichedToday (enrichments : List Enrichment) (now : Time) : ℕ :=
  enrichments.countP fun x => todayStart now ≤ x.time

/-- Those of them that have no row in `enrichment_jobs`. -/
def uncountedToday (enrichments : List Enrichment) (now : Time) : ℕ :=
  enrichments.countP fun x => todayStart now ≤ x.time ∧ ! x.hasJob

/-- The enrichments of a day do not exceed the limit. -/
def WithinLimit (cfg : PipelineConfig) (w : World) : Prop :=
  enrichedToday w.enrichments w.now ≤ cfg.maxEnrichmentsPerDay

/-- With the uncounted enrichments counted, there is still room for `n` more. -/
def World.roomFor (cfg : PipelineConfig) (w : World) (n : ℕ) : Bool :=
  jobsToday w.enrichmentJobs w.now + uncountedToday w.enrichments w.now + n ≤
    cfg.maxEnrichmentsPerDay

/-- A check that passes, and is followed by enrichments, would also have passed with the
uncounted enrichments counted. -/
def roomForUncounted (cfg : PipelineConfig) (w : World) : Event → Bool
  | .enrich i delay =>
    match w.dispatches i with
    | some (.counting _ _) =>
      cfg.maxEnrichmentsPerDay ≤ jobsToday w.enrichmentJobs w.now ∨ ! delay.isOk ∨ w.roomFor cfg 1
    | _ => true
  | .triggerEnrich companyId delay =>
    (w.company companyId).all (·.status = .archived) ∨
      cfg.maxEnrichmentsPerDay ≤ jobsToday w.enrichmentJobs w.now ∨ ! delay.isOk ∨ w.roomFor cfg 1
  | .enrichAllDiscovered order =>
    w.enrichBatch cfg order = [] ∨ w.roomFor cfg (w.enrichBatch cfg order).length
  | _ => true

/-! ## Counting -/

/-- Later in time, fewer enrichments are of the same day. -/
theorem enrichedToday_mono (enrichments : List Enrichment) {now now' : Time} (h : now ≤ now') :
    enrichedToday enrichments now' ≤ enrichedToday enrichments now := by
  refine List.countP_mono_left fun x _ hx => ?_
  have hday := todayStart_mono h
  have hx : todayStart now' ≤ x.time := of_decide_eq_true hx
  exact decide_eq_true (Int.le_trans hday hx)

/-- Enrichments of this moment are all of today. -/
theorem enrichedToday_append {enrichments new : List Enrichment} {now : Time}
    (h : ∀ x ∈ new, x.time = now) :
    enrichedToday (enrichments ++ new) now = enrichedToday enrichments now + new.length := by
  have hall : new.countP (fun x => todayStart now ≤ x.time) = new.length := by
    refine List.countP_eq_length.mpr fun x hx => ?_
    rw [h x hx]
    exact decide_eq_true (todayStart_le now)
  unfold enrichedToday
  rw [List.countP_append, hall]

/-- The enrichments of a day are those with a job and the uncounted ones. -/
theorem enrichedToday_eq (enrichments : List Enrichment) (now : Time) :
    enrichedToday enrichments now =
      enrichments.countP (fun x => todayStart now ≤ x.time ∧ x.hasJob) +
        uncountedToday enrichments now := by
  unfold enrichedToday uncountedToday
  induction enrichments with
  | nil => rfl
  | cons x xs ih =>
    rw [List.countP_cons, List.countP_cons, List.countP_cons, ih]
    by_cases hx : todayStart now ≤ x.time
    · cases hj : x.hasJob with
      | true => simp [hx]; omega
      | false => simp [hx]; omega
    · simp [hx]

/-- Every enrichment that is said to have a job has one, of the same time. -/
def JobsBehind (enrichments : List Enrichment) (jobs : List EnrichmentJob) : Prop :=
  ∀ start : Time, enrichments.countP (fun x => start ≤ x.time ∧ x.hasJob) ≤
    jobs.countP fun j => start ≤ j.createdAt

/-- The enrichments of today are among the counted and the uncounted ones. -/
theorem enrichedToday_le {enrichments : List Enrichment} {jobs : List EnrichmentJob}
    (h : JobsBehind enrichments jobs) (now : Time) :
    enrichedToday enrichments now ≤ jobsToday jobs now + uncountedToday enrichments now := by
  have hcounted := h (todayStart now)
  rw [enrichedToday_eq]
  unfold jobsToday
  omega

namespace JobsBehind

variable {enrichments new : List Enrichment} {jobs : List EnrichmentJob}

theorem addJob (h : JobsBehind enrichments jobs) (j : EnrichmentJob) :
    JobsBehind enrichments (jobs ++ [j]) := by
  intro start
  rw [List.countP_append]
  exact Nat.le_add_right_of_le (h start)

/-- Enrichments without a job. -/
theorem addUncounted (h : JobsBehind enrichments jobs) (hnew : ∀ x ∈ new, x.hasJob = false) :
    JobsBehind (enrichments ++ new) jobs := by
  intro start
  have hzero : new.countP (fun x => start ≤ x.time ∧ x.hasJob) = 0 := by
    refine List.countP_eq_zero.mpr fun x hx => ?_
    simp [hnew x hx]
  rw [List.countP_append, hzero, Nat.add_zero]
  exact h start

/-- An enrichment together with its job. -/
theorem addCounted (h : JobsBehind enrichments jobs) (companyId : ℕ) (now : Time) :
    JobsBehind (enrichments ++ [{ companyId := companyId, hasJob := true, time := now }])
      (jobs ++ [{ companyId := companyId, createdAt := now }]) := by
  intro start
  have hle := h start
  rw [List.countP_append, List.countP_append, List.countP_singleton, List.countP_singleton]
  simp only [and_true]
  omega

/-- New enrichments for which there is room. -/
theorem withinLimit_append (h : JobsBehind enrichments jobs) {now : Time} {limit : ℕ}
    (hnew : ∀ x ∈ new, x.time = now)
    (hroom : jobsToday jobs now + uncountedToday enrichments now + new.length ≤ limit) :
    enrichedToday (enrichments ++ new) now ≤ limit := by
  rw [enrichedToday_append hnew]
  have hle := enrichedToday_le h now
  omega

end JobsBehind

/-! ## One step -/

namespace World

/-- The invariant of the limit. -/
structure Limited (cfg : PipelineConfig) (w : World) : Prop where
  jobs : JobsBehind w.enrichments w.enrichmentJobs
  limit : WithinLimit cfg w

theorem Limited.enrich {cfg : PipelineConfig} {w : World} {i : ℕ} {s : Signal}
    {c : Option Company} {delay : Except String Unit} (h : Limited cfg w)
    (hd : w.dispatches i = some (.counting s c))
    (hc : roomForUncounted cfg w (.enrich i delay) = true) :
    Limited cfg (w.enrichStep cfg i s c delay) := by
  have hold := h.limit
  unfold WithinLimit at hold
  by_cases hq : jobsToday w.enrichmentJobs w.now < cfg.maxEnrichmentsPerDay ∧ delay.isOk = true
  · -- one enrichment without a job
    have heq : (w.enrichStep cfg i s c delay).enrichments = w.enrichments ++
        [{ companyId := s.companyId, signalId := some s.id, time := w.now }] := by
      show w.enrichments ++ (if _ then _ else _) = _
      rw [if_pos hq]
    -- the check has passed and the call has worked, so the condition says that there is room
    have hroom : w.roomFor cfg 1 = true := by
      simp only [roomForUncounted, hd, decide_eq_true_eq] at hc
      rcases hc with hfull | hfail | hroom
      · omega
      · simp [hq.2] at hfail
      · exact hroom
    constructor
    · rw [heq]
      refine h.jobs.addUncounted fun x hx => ?_
      obtain rfl := List.mem_singleton.mp hx
      rfl
    · unfold WithinLimit
      rw [heq]
      refine h.jobs.withinLimit_append (fun x hx => ?_) (of_decide_eq_true hroom)
      obtain rfl := List.mem_singleton.mp hx
      rfl
  · have heq : (w.enrichStep cfg i s c delay).enrichments = w.enrichments := by
      show w.enrichments ++ (if _ then _ else _) = _
      rw [if_neg hq, List.append_nil]
    constructor
    · rw [heq]
      exact h.jobs
    · unfold WithinLimit
      rw [heq]
      exact hold

theorem Limited.triggerEnrich {cfg : PipelineConfig} {w : World} {companyId : ℕ}
    {delay : Except String Unit} (h : Limited cfg w)
    (hactive : (w.company companyId).any (·.status ≠ .archived) = true)
    (hlimit : jobsToday w.enrichmentJobs w.now < cfg.maxEnrichmentsPerDay)
    (hc : roomForUncounted cfg w (.triggerEnrich companyId delay) = true) :
    Limited cfg { w with
      enrichmentJobs := w.enrichmentJobs ++ [{ companyId := companyId, createdAt := w.now }]
      enrichments := w.enrichments ++ if delay.isOk then
        [{ companyId := companyId, hasJob := true, time := w.now }] else [] } := by
  cases delay with
  | error exc =>
    constructor
    · show JobsBehind (w.enrichments ++ []) _
      rw [List.append_nil]
      exact h.jobs.addJob _
    · show enrichedToday (w.enrichments ++ []) w.now ≤ _
      rw [List.append_nil]
      exact h.limit
  | ok u =>
    have hroom : w.roomFor cfg 1 = true := by
      simp only [roomForUncounted, decide_eq_true_eq] at hc
      rcases hc with harch | hfull | hfail | hroom
      · cases hrow : w.company companyId with
        | none => simp [hrow] at hactive
        | some c =>
          simp only [hrow, Option.any_some, Option.all_some, decide_eq_true_eq] at hactive harch
          exact absurd harch hactive
      · omega
      · cases hfail
      · exact hroom
    constructor
    · exact h.jobs.addCounted companyId w.now
    · refine h.jobs.withinLimit_append (fun x hx => ?_) (of_decide_eq_true hroom)
      obtain rfl := List.mem_singleton.mp hx
      rfl

theorem Limited.enrichAll {cfg : PipelineConfig} {w : World} {order : List ℕ} (h : Limited cfg w)
    (hc : roomForUncounted cfg w (.enrichAllDiscovered order) = true) :
    Limited cfg { w with enrichments := w.enrichments ++ w.enrichBatch cfg order } := by
  have hbatch : ∀ x ∈ w.enrichBatch cfg order, x.hasJob = false ∧ x.time = w.now := by
    intro x hx
    obtain ⟨companyId, _, rfl⟩ := List.mem_map.mp hx
    exact ⟨rfl, rfl⟩
  refine ⟨h.jobs.addUncounted fun x hx => (hbatch x hx).1, ?_⟩
  -- an empty batch adds nothing
  rcases of_decide_eq_true hc with hnil | hroom
  · show enrichedToday (w.enrichments ++ w.enrichBatch cfg order) w.now ≤ _
    rw [hnil, List.append_nil]
    exact h.limit
  · exact h.jobs.withinLimit_append (fun x hx => (hbatch x hx).2) (of_decide_eq_true hroom)

theorem limited_step {cfg : PipelineConfig} {w w' : World} {ev : Event} (h : Limited cfg w)
    (hc : roomForUncounted cfg w ev = true) (hs : step cfg w ev = some w') : Limited cfg w' := by
  cases step_move hs with
  | write hw =>
    cases hw with
    | tick d hd =>
      refine ⟨h.jobs, Nat.le_trans ?_ h.limit⟩
      exact enrichedToday_mono w.enrichments (Int.le_add_of_nonneg_right hd)
    | addJob companyId => exact ⟨h.jobs.addJob _, h.limit⟩
    | triggerEnrich companyId delay hactive hlimit => exact h.triggerEnrich hactive hlimit hc
    | enrichAllDiscovered order horder => exact h.enrichAll hc
    | nothing => exact h
    | addCompany c hfresh hnew => exact ⟨h.jobs, h.limit⟩
    | setStatus companyId status hrow => exact ⟨h.jobs, h.limit⟩
    | background op => exact ⟨h.jobs, h.limit⟩
    | setJob i job => exact ⟨h.jobs, h.limit⟩
    | resume i answers job hj => exact ⟨h.jobs, h.limit⟩
  | enrich i s c delay hd => exact h.enrich hd hc
  | _ => exact ⟨h.jobs, h.limit⟩

end World

/-! ## Runs -/

/-- If no check passes that would have failed with the uncounted enrichments counted, the
enrichments of a day do not exceed the limit in any state of the run. -/
theorem withinLimit_of_roomForUncounted (cfg : PipelineConfig) (t : Time) (events : List Event)
    (h : Run.AllSteps (World.step cfg) (fun w ev => roomForUncounted cfg w ev = true)
      (World.init t) events) :
    Run.AllStates (World.step cfg) (WithinLimit cfg) (World.init t) events := by
  have hinit : World.Limited cfg (World.init t) := ⟨fun start => Nat.le_refl 0, Nat.zero_le _⟩
  have hinv : Run.AllStates (World.step cfg) (World.Limited cfg) (World.init t) events := by
    refine Run.AllStates.of_inv ?_ hinit h
    exact fun w ev w' hw hc hs => World.limited_step hw hc hs
  exact hinv.mono fun w hw => hw.limit

/-- Two companies, one of them with a signal that asks for an enrichment. -/
def twoCompanies : List Event :=
  [.addCompany { id := 1, name := [], domain := [] },
   .addCompany { id := 2, name := [], domain := [] }] ++ analysedSignal 1 1 30

/-- A limit of three is kept by one enrichment on each path. -/
theorem withinLimit_three :
    Run.AllStates (World.step { maxEnrichmentsPerDay := 3 })
      (WithinLimit { maxEnrichmentsPerDay := 3 }) (World.init 0)
      (twoCompanies ++ [.execute 0 1 true, .enrich 0 (.ok ()), .finish 0,
        .triggerEnrich 2 (.ok ()), .enrichAllDiscovered [2]]) :=
  withinLimit_of_roomForUncounted _ 0 _
    (Run.AllSteps.of_check (fun _ _ h => h) (by decide +kernel))

/-- With a limit of one, a signal's enrichment and a batch on the same day. -/
theorem uncounted_exceeds :
    ¬ Run.AllStates (World.step { maxEnrichmentsPerDay := 1 })
      (WithinLimit { maxEnrichmentsPerDay := 1 }) (World.init 0)
      (twoCompanies ++ [.execute 0 1 true, .enrich 0 (.ok ()), .finish 0,
        .enrichAllDiscovered [2]]) := by
  refine Run.not_allStates (q := fun w => enrichedToday w.enrichments w.now = 2) (fun w hw => ?_) ?_
  · refine decide_eq_false fun hq => ?_
    unfold WithinLimit at hw
    dsimp only at hw
    omega
  · decide +kernel

end LeadPulse
