import LeadPulse.Pipeline.Sound

/-!
# A signal is dispatched once

`execute` reads `action_executed_at` when it loads the signal and sets it when it commits;
in between it queues tasks and prepares audit entries. What it has read may be out of date
when it acts: `overlap_dispatches_twice` is a run in which two workers execute one signal
side by side, and both queue an enrichment and write a SUCCESS entry.

`dispatchedOnce_of_guardHolds` says when this cannot happen: in every run in which the guard
still holds at the moments when an execution acts (`GuardHolds`).
-/

namespace LeadPulse

/-- The number of `enrich_company` tasks that executions of the signal have queued. -/
def queuedFor (enrichments : List Enrichment) (signalId : ℕ) : ℕ :=
  enrichments.countP fun x => x.signalId = some signalId

/-- The number of SUCCESS entries of the signal. -/
def succeededFor (auditLogs : List AuditLog) (signalId : ℕ) : ℕ :=
  auditLogs.countP fun a => a.signalId = signalId ∧ a.status = .success

/-- A signal is never dispatched twice. -/
def DispatchedOnce (w : World) : Prop :=
  ∀ signalId, queuedFor w.enrichments signalId ≤ 1 ∧ succeededFor w.auditLogs signalId ≤ 1

namespace Execution

/-- The execution will write a SUCCESS entry. -/
def succeeds (e : Execution) : Bool := e.audit.any fun a => a.status = .success

/-- The execution has queued an enrichment. -/
def queuedTask (e : Execution) : Bool :=
  e.audit.any fun a => a.target = .enrichment ∧ a.status = .success

end Execution

/-- An execution of the signal has queued a task and not yet committed. -/
def TaskPending (dispatches : ℕ → Option Dispatch) (signalId : ℕ) : Prop :=
  ∃ i e, dispatches i = some (.committing e) ∧ e.signal.id = signalId ∧ e.queuedTask = true

/-- What the guard has read still holds where an execution acts: the row is still unexecuted
when a task is queued and when a SUCCESS entry is committed, no other execution that has
queued a task for the signal is waiting for its commit, and no worker dies between the two. -/
def GuardHolds (cfg : PipelineConfig) (w : World) : Event → Prop
  | .enrich i delay => ∀ s c, w.dispatches i = some (.counting s c) →
      jobsToday w.enrichmentJobs w.now < cfg.maxEnrichmentsPerDay → delay.isOk = true →
      Unexecuted w.signals s.id ∧ ¬ TaskPending w.dispatches s.id
  | .finish i => ∀ e, w.dispatches i = some (.committing e) → e.succeeds = true →
      Unexecuted w.signals e.signal.id
  | .crash i => ∀ e, w.dispatches i = some (.committing e) → e.queuedTask = false
  | _ => True

/-! ## The invariant -/

/-- No signal is dispatched twice, and one whose row is unexecuted has been dispatched only
as far as its execution in flight goes. -/
structure Once (signals : List Signal) (dispatches : ℕ → Option Dispatch)
    (enrichments : List Enrichment) (auditLogs : List AuditLog) : Prop where
  queued : ∀ signalId, queuedFor enrichments signalId ≤ 1
  succeeded : ∀ signalId, succeededFor auditLogs signalId ≤ 1
  fresh : ∀ signalId, Unexecuted signals signalId → succeededFor auditLogs signalId = 0
  pending : ∀ signalId, Unexecuted signals signalId → queuedFor enrichments signalId ≠ 0 →
    TaskPending dispatches signalId

/-- A worker that is not about to commit may go on. -/
theorem TaskPending.update {dispatches : ℕ → Option Dispatch} {signalId i : ℕ}
    {d : Option Dispatch} (h : TaskPending dispatches signalId)
    (hi : ∀ e, dispatches i = some (.committing e) → e.signal.id = signalId →
      e.queuedTask = false) :
    TaskPending (Function.update dispatches i d) signalId := by
  obtain ⟨j, e, hj, hid, hq⟩ := h
  refine ⟨j, e, ?_, hid, hq⟩
  rw [Function.update_of_ne ?_]
  · exact hj
  · intro hji
    subst hji
    rw [hi e hj hid] at hq
    cases hq

namespace Once

variable {signals : List Signal} {dispatches : ℕ → Option Dispatch}
  {enrichments : List Enrichment} {auditLogs : List AuditLog} {i : ℕ} {d : Option Dispatch}

theorem init : Once [] (fun _ => none) [] [] :=
  ⟨fun _ => Nat.zero_le 1, fun _ => Nat.zero_le 1, fun _ _ => rfl, fun _ _ h => absurd rfl h⟩

/-- The signals may change as long as no row becomes unexecuted. -/
theorem signals_mono (h : Once signals dispatches enrichments auditLogs) {signals' : List Signal}
    (hs : ∀ signalId, Unexecuted signals' signalId → Unexecuted signals signalId) :
    Once signals' dispatches enrichments auditLogs :=
  ⟨h.queued, h.succeeded, fun id hid => h.fresh id (hs id hid),
    fun id hid => h.pending id (hs id hid)⟩

/-- A worker that has queued nothing goes on, or starts, or ends. -/
theorem update (h : Once signals dispatches enrichments auditLogs)
    (hi : ∀ e, dispatches i = some (.committing e) → e.queuedTask = false) :
    Once signals (Function.update dispatches i d) enrichments auditLogs :=
  { h with pending := fun id hid hq => (h.pending id hid hq).update fun e he _ => hi e he }

/-- Enrichments that no execution has dispatched. -/
theorem queuedFor_append_of_none {new : List Enrichment} (h : ∀ x ∈ new, x.signalId = none)
    (signalId : ℕ) : queuedFor (enrichments ++ new) signalId = queuedFor enrichments signalId := by
  have hzero : new.countP (fun x => x.signalId = some signalId) = 0 := by
    refine List.countP_eq_zero.mpr fun x hx => ?_
    simp [h x hx]
  unfold queuedFor
  rw [List.countP_append, hzero, Nat.add_zero]

theorem queuedFor_append_one (x : Enrichment) (signalId : ℕ) :
    queuedFor (enrichments ++ [x]) signalId =
      queuedFor enrichments signalId + if x.signalId = some signalId then 1 else 0 := by
  unfold queuedFor
  rw [List.countP_append, List.countP_singleton]
  simp

/-- An execution queues its task: the guard says that there was none before. -/
theorem enrich (h : Once signals dispatches enrichments auditLogs) {s : Signal} {e : Execution}
    {companyId : ℕ} {t : Time} (hi : ∀ e, dispatches i ≠ some (.committing e))
    (hopen : Unexecuted signals s.id) (hnone : ¬ TaskPending dispatches s.id)
    (he : e.signal.id = s.id) (hq : e.queuedTask = true) :
    Once signals (Function.update dispatches i (some (.committing e)))
      (enrichments ++ [{ companyId := companyId, signalId := some s.id, time := t }])
      auditLogs := by
  have hzero : queuedFor enrichments s.id = 0 := by
    by_contra hne
    exact hnone (h.pending s.id hopen hne)
  refine ⟨fun id => ?_, h.succeeded, h.fresh, fun id hid hne => ?_⟩
  · rw [queuedFor_append_one]
    split
    · rename_i hs
      cases hs
      omega
    · exact h.queued id
  · by_cases hs : id = s.id
    · -- the worker itself is the pending execution
      subst hs
      exact ⟨i, e, Function.update_self .., he, hq⟩
    · rw [queuedFor_append_one, if_neg (by simpa using Ne.symm hs)] at hne
      exact (h.pending id hid hne).update fun e he _ => absurd he (hi e)

/-- The commit of an execution; a SUCCESS entry meets a row that was unexecuted so far. -/
theorem finish (h : Once signals dispatches enrichments auditLogs) {e : Execution} {t : Time}
    (hd : dispatches i = some (.committing e)) (hvalid : (Dispatch.committing e).Valid)
    (hrow : (Table.get Signal.id signals e.signal.id).isSome = true)
    (hopen : e.succeeds = true → Unexecuted signals e.signal.id) :
    Once (Table.modify Signal.id signals e.signal.id
        fun s => { s with actionExecutedAt := some t })
      (Function.update dispatches i none) enrichments (auditLogs ++ e.audit.toList) := by
  have hcount : ∀ id, id ≠ e.signal.id →
      succeededFor (auditLogs ++ e.audit.toList) id = succeededFor auditLogs id := by
    intro id hne
    -- the entry is about the signal of the execution
    have hzero : e.audit.toList.countP (fun a => a.signalId = id ∧ a.status = .success) = 0 := by
      refine List.countP_eq_zero.mpr fun a ha => ?_
      have hid := hvalid.entry e a rfl (by simpa using ha)
      simp [hid, hne.symm]
    unfold succeededFor
    rw [List.countP_append, hzero, Nat.add_zero]
  refine ⟨h.queued, fun id => ?_, fun id hid => ?_, fun id hid hne => ?_⟩
  · by_cases hid : id = e.signal.id
    · subst hid
      have hle := h.succeeded e.signal.id
      unfold succeededFor at hle ⊢
      rw [List.countP_append]
      cases ha : e.audit with
      | none => simpa using hle
      | some a =>
        by_cases hs : a.status = .success
        · -- the row was unexecuted, so there was no such entry
          have hsucc : e.succeeds = true := by simp [Execution.succeeds, ha, hs]
          have hzero := h.fresh e.signal.id (hopen hsucc)
          unfold succeededFor at hzero
          rw [hzero, Nat.zero_add]
          exact List.countP_le_length
        · simpa [hs] using hle
    · rw [hcount id hid]
      exact h.succeeded id
  · obtain ⟨hne, hold⟩ := unexecuted_finish hrow hid
    rw [hcount id hne]
    exact h.fresh id hold
  · -- a signal that is still unexecuted is another one, with another execution in flight
    obtain ⟨hne', hold⟩ := unexecuted_finish hrow hid
    refine (h.pending id hold hne).update fun e' he' hid' => ?_
    rw [hd] at he'
    cases he'
    exact absurd hid'.symm hne'

end Once

namespace World

theorem once_enrich {cfg : PipelineConfig} {w : World} {i : ℕ} {s : Signal}
    {c : Option Company} {delay : Except String Unit}
    (h : Once w.signals w.dispatches w.enrichments w.auditLogs)
    (hd : w.dispatches i = some (.counting s c)) (hg : GuardHolds cfg w (.enrich i delay)) :
    Once (w.enrichStep cfg i s c delay).signals (w.enrichStep cfg i s c delay).dispatches
      (w.enrichStep cfg i s c delay).enrichments (w.enrichStep cfg i s c delay).auditLogs := by
  have hi : ∀ e, w.dispatches i ≠ some (.committing e) := by
    intro e he
    rw [hd] at he
    cases he
  show Once w.signals
    (Function.update w.dispatches i (some (.committing (Dispatch.enrich cfg.maxEnrichmentsPerDay
      (jobsToday w.enrichmentJobs w.now) s c delay))))
    (w.enrichments ++
      if jobsToday w.enrichmentJobs w.now < cfg.maxEnrichmentsPerDay ∧ delay.isOk = true then _
      else []) w.auditLogs
  by_cases hq : jobsToday w.enrichmentJobs w.now < cfg.maxEnrichmentsPerDay ∧ delay.isOk = true
  · obtain ⟨hopen, hnone⟩ := hg s c hd hq.1 hq.2
    rw [if_pos hq]
    refine h.enrich hi hopen hnone (by rw [Dispatch.enrich_signal]) ?_
    -- the entry of an execution that has queued its task
    have hlt : ¬ cfg.maxEnrichmentsPerDay ≤ jobsToday w.enrichmentJobs w.now := by omega
    cases delay with
    | error exc => cases hq.2
    | ok u => simp [Execution.queuedTask, Dispatch.enrich, Dispatch.enrichEntry, hlt]
  · rw [if_neg hq]
    simp only [List.append_nil]
    exact h.update fun e he => absurd he (hi e)

theorem once_step {cfg : PipelineConfig} {w w' : World} {ev : Event}
    (hsound : Sound w.signals w.analyses w.dispatches)
    (h : Once w.signals w.dispatches w.enrichments w.auditLogs) (hg : GuardHolds cfg w ev)
    (hs : step cfg w ev = some w') :
    Once w'.signals w'.dispatches w'.enrichments w'.auditLogs := by
  have hother : ∀ {i d}, w.dispatches i = some d → (∀ e, d ≠ .committing e) →
      ∀ e, w.dispatches i = some (.committing e) → e.queuedTask = false := by
    intro i d hd hne e he
    rw [hd] at he
    exact absurd (Option.some.inj he) (hne e)
  cases step_move hs with
  | write hw =>
    have hq := hw.quiet
    obtain ⟨new, hnew, hnone⟩ := hq.enrichments
    rw [hq.signals, hq.dispatches, hq.auditLogs, hnew]
    refine ⟨fun id => ?_, h.succeeded, h.fresh, fun id hid hne => ?_⟩
    · rw [Once.queuedFor_append_of_none hnone]
      exact h.queued id
    · rw [Once.queuedFor_append_of_none hnone] at hne
      exact h.pending id hid hne
  | addSignal s hfresh hp ha he => exact h.signals_mono fun _ => unexecuted_append
  | analysis i a ha => exact h
  | analysisEnds i => exact h
  | verdict i l v hlv =>
    have hv := (hsound.analysis i _ hlv).1.verdict l v rfl
    exact h.signals_mono fun id => (unexecuted_modify (Signal.flush_id l v) fun r =>
      Signal.flush_actionExecutedAt hv.actionExecutedAt).mp
  | start i signalId slack d hfree hd => exact h.update fun e he => by rw [hfree] at he; cases he
  | enrich i s c delay hd => exact once_enrich h hd hg
  | unlocked i s hd hc => exact h.update (hother hd fun e he => nomatch he)
  | suppressed i s c hd hc hfree hcool => exact h.update (hother hd fun e he => nomatch he)
  | locked i s c hd hc hfree hcool => exact h.update (hother hd fun e he => nomatch he)
  | collect i s c hd => exact h.update (hother hd fun e he => nomatch he)
  | deliver i s c pending result hd => exact h.update (hother hd fun e he => nomatch he)
  | finish i e hd hmay =>
    obtain ⟨hvalid, row, hrow, _⟩ := hsound.dispatch i _ hd
    exact h.finish hd hvalid (Option.isSome_of_mem hrow) (hg e hd)
  | crash i => exact h.update hg
  | digest => exact h

end World

/-! ## Runs -/

/-- If the guard holds at every step where an execution acts, no signal is dispatched twice
in any state of the run. -/
theorem dispatchedOnce_of_guardHolds (cfg : PipelineConfig) (t : Time) (events : List Event)
    (h : Run.AllSteps (World.step cfg) (GuardHolds cfg) (World.init t) events) :
    Run.AllStates (World.step cfg) DispatchedOnce (World.init t) events := by
  have hinv : Run.AllStates (World.step cfg) (fun w => Sound w.signals w.analyses w.dispatches ∧
      Once w.signals w.dispatches w.enrichments w.auditLogs) (World.init t) events := by
    refine Run.AllStates.of_inv ?_ ⟨Sound.init, Once.init⟩ h
    intro w ev w' hw hg hs
    exact ⟨World.sound_step hw.1 hs, World.once_step hw.1 hw.2 hg hs⟩
  exact hinv.mono fun w hw id => ⟨hw.2.queued id, hw.2.succeeded id⟩

/-- The steps of a run that no execution in parallel can disturb. -/
theorem dispatchedOnce_digest : Run.AllStates (World.step {}) DispatchedOnce (World.init 0)
    (analysedSignal 1 1 60 ++ [.execute 0 1 true, .finish 0]) :=
  dispatchedOnce_of_guardHolds {} 0 _ <| Run.AllSteps.of_check
    (c := fun w ev => match ev with
      | .enrich _ _ | .crash _ => false
      | .finish i => (w.dispatches i).all fun d => Unexecuted w.signals d.signal.id
      | _ => true)
    (by
      intro w ev hc
      cases ev with
      | finish i =>
        intro e he _
        dsimp only at hc
        rw [he] at hc
        exact of_decide_eq_true hc
      | enrich i delay => cases hc
      | crash i => cases hc
      | _ => trivial)
    (by decide +kernel)

/-- Two workers execute one signal side by side. -/
def overlap : List Event :=
  [.addCompany { id := 1, name := [], domain := [] }] ++ analysedSignal 1 1 30 ++
  [.execute 0 1 true, .execute 1 1 true, .enrich 0 (.ok ()), .enrich 1 (.ok ()),
   .finish 0, .finish 1]

/-- Both executions queue an enrichment and write a SUCCESS entry. -/
theorem overlap_dispatches_twice :
    ¬ Run.AllStates (World.step {}) DispatchedOnce (World.init 0) overlap := by
  refine Run.not_allStates (q := fun w =>
    queuedFor w.enrichments 1 = 2 ∧ succeededFor w.auditLogs 1 = 2) (fun w hw => ?_) ?_
  · have := hw 1
    simp only [decide_eq_false_iff_not]
    omega
  · decide +kernel

end LeadPulse
