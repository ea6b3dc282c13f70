import LeadPulse.Signals.Queue
import Mathlib.Algebra.Ring.Rat

/-!
# The daily budget of the model

`process_queue` compares the costs of the day with the budget when it starts and again before
each signal. The costs are those of the provider of the client, and the client is made by the
first analysis only: while there is none, `_daily_budget_exceeded` says that all is well.

The world of this module is the queue of `Signals/Queue.lean` together with the service, the
table `api_usage`, and the answers of the checks, which follow from these.

* `spentAtStart_calls` is a run that starts with its budget spent and calls the model;
* `budgetKept_iff`: the budget stops a run exactly if, whenever it has been reached and a next
  signal waits, there is a client and the costs are still those of the same day.
-/

namespace LeadPulse

structure APIUsage where
  provider : String
  costEstimate : Option ℚ
  timestamp : Time
deriving DecidableEq, Repr

/-- The costs of a provider on the day of `now`. -/
def spentToday (usage : List APIUsage) (provider : String) (now : Time) : ℚ :=
  ((usage.filter fun u => u.provider = provider ∧ todayStart now ≤ u.timestamp).filterMap
    (·.costEstimate)).sum

/-- `_daily_budget_exceeded`. -/
def dailyBudgetExceeded (service : IntelligenceService) (usage : List APIUsage) (budget : ℚ)
    (now : Time) : Bool :=
  match service.llm with
  | none => false
  | some llm => budget ≤ spentToday usage llm.provider now

/-- What a turn of the loop waits for before its analysis has loaded the signal. -/
inductive TurnStage where
  | idle
  /-- `create_llm_client`. -/
  | creating
  /-- `_load_signal`. -/
  | loading
deriving DecidableEq, Repr

structure BudgetWorld where
  queue : QueueWorld
  service : IntelligenceService
  usage : List APIUsage
  stage : TurnStage
  /-- `process_queue` has been called. -/
  started : Bool
  /-- At that moment the budget had been spent. -/
  startedOver : Bool
  /-- Since then the costs of the day have been at the budget or above it. -/
  reached : Bool
  /-- The signals that the model was asked about, once for each call. -/
  llmCalls : List ℕ
  /-- The signals that were taken up after the budget had been reached. -/
  late : List ℕ
deriving DecidableEq, Repr

inductive BudgetEvent where
  /-- A row of `api_usage` is committed, for this run or by another process. -/
  | record (provider : String) (costEstimate : Option ℚ)
  /-- `process_queue` is called and makes its first check. -/
  | begin
  /-- The head of the loop: the check of the next signal. -/
  | check
  /-- `create_llm_client` returns a client or raises. -/
  | create (answer : Except String Unit)
  /-- The analysis loads the signal. -/
  | load
  /-- Any other step of the queue. -/
  | queue (ev : QueueEvent)
deriving DecidableEq, Repr

/-- The call of the model that a step of an analysis makes. -/
def callMade : QueueEvent → QueuePhase → List ℕ
  | .check, .analysing _ _ _ (.classifying s) => [s.id]
  | .classify _, .analysing _ _ _ (.scoring s _) => [s.id]
  | _, _ => []

namespace BudgetWorld

variable (budget : ℚ) (provider : String)

/-- The service is built without a client. -/
def init (t : Time) (usage : List APIUsage) : BudgetWorld where
  queue := QueueWorld.init t
  service := .new none
  usage := usage
  stage := .idle
  started := false
  startedOver := false
  reached := false
  llmCalls := []
  late := []

/-- The costs of the day are at the budget or above it. -/
def spent (w : BudgetWorld) : Bool := budget ≤ spentToday w.usage provider w.queue.now

/-- The next signal of the loop. -/
def next (w : BudgetWorld) : Option ℕ :=
  match w.queue.phase with
  | .looping _ signalIds processed => signalIds[processed]?
  | _ => none

/-- The first check of `process_queue`. -/
def beginRun (w : BudgetWorld) : Option BudgetWorld :=
  match w.queue.phase with
  | .listed pendingIds =>
    if w.started then none
    else
      let w := { w with started := true, startedOver := w.spent budget provider }
      if dailyBudgetExceeded w.service w.usage budget w.queue.now then
        some { w with queue := { w.queue with phase := .returned pendingIds [] 0 } }
      else some w
  | _ => none

/-- `analyze` begins with `_ensure_llm`. -/
def takeUp (w : BudgetWorld) (signalId : ℕ) : BudgetWorld :=
  { w with
    service := w.service.ensureLlm
    stage := if w.service.llmInitialized then .loading else .creating
    late := if w.reached then w.late ++ [signalId] else w.late }

/-- The head of the loop; without a next signal there is nothing to check. -/
def checkNext (w : BudgetWorld) : Option BudgetWorld :=
  if w.stage = .idle then
    match w.next with
    | none => (w.queue.step (.next false)).map fun queue => { w with queue := queue }
    | some signalId =>
      if dailyBudgetExceeded w.service w.usage budget w.queue.now then
        (w.queue.step (.next true)).map fun queue => { w with queue := queue }
      else some (w.takeUp signalId)
  else none

/-- The steps of the queue that do not depend on the budget. -/
def free (w : BudgetWorld) : QueueEvent → Bool
  | .next _ => false
  | .listSignals _ => w.started
  | _ => true

def act (w : BudgetWorld) : BudgetEvent → Option BudgetWorld
  | .record provider costEstimate =>
    some { w with usage := w.usage ++ [⟨provider, costEstimate, w.queue.now⟩] }
  | .begin => w.beginRun budget provider
  | .check => w.checkNext budget
  | .create answer =>
    if w.stage = .creating then
      match answer with
      | .ok () => some { w with service := w.service.created ⟨provider⟩, stage := .loading }
      | .error _ => (w.queue.step .raise).map fun queue =>
          { w with queue := queue, stage := .idle }
    else none
  | .load =>
    if w.stage = .loading then
      (w.queue.step (.next false)).map fun queue => { w with queue := queue, stage := .idle }
    else none
  | .queue ev =>
    if w.free ev then
      (w.queue.step ev).map fun queue => { w with
        queue := queue
        stage := if ev = .raise then .idle else w.stage
        llmCalls := w.llmCalls ++ callMade ev queue.phase }
    else none

/-- Whether the budget has been reached is noted after each step. -/
def note (w : BudgetWorld) : BudgetWorld :=
  { w with reached := w.reached || w.started && w.spent budget provider }

/-- `provider` is the one that `create_llm_client` makes its client for. -/
def step (w : BudgetWorld) (ev : BudgetEvent) : Option BudgetWorld :=
  (w.act budget provider ev).map (note budget provider)

end BudgetWorld

/-! ## The property and its condition -/

/-- A run that started with its budget spent makes no call of the model, and none takes up a
signal once the budget has been reached. -/
def BudgetKept (w : BudgetWorld) : Prop :=
  (w.startedOver = true → w.llmCalls = []) ∧ w.late = []

/-- When the budget has been reached and a next signal waits, there is a client, and the costs
of the day are still at the budget. -/
def clientAtBudget (budget : ℚ) (provider : String) (w : BudgetWorld) : BudgetEvent → Bool
  | .check => w.next = none ∨ w.reached = false ∨
      w.service.llm.isSome = true ∧ w.spent budget provider = true
  | _ => true

/-! ## Steps of the queue -/

namespace QueuePhase

/-- `process_queue` has not listed its signals, or an exception has left the task. -/
def waiting : QueuePhase → Bool
  | .start | .listed _ | .raised => true
  | _ => false

/-- A signal is being analysed. -/
def inAnalysis : QueuePhase → Bool
  | .analysing _ _ _ _ => true
  | _ => false

end QueuePhase

theorem callMade_eq_nil {ev : QueueEvent} {phase : QueuePhase} (h : phase.inAnalysis = false) :
    callMade ev phase = [] := by
  unfold callMade
  split
  · cases h
  · cases h
  · rfl

namespace QueueWorld

variable {q q' : QueueWorld} {ev : QueueEvent} {b : Bool}

theorem others_phase (h : q.others ev = some q') : q'.phase = q.phase := by
  unfold others at h
  split at h
  · split at h <;> cases h
    rfl
  · cases h
    rfl
  · cases h
    rfl
  · split at h <;> cases h
    rfl
  · cases h

/-- A step leaves the phase alone or is one of the run. -/
theorem step_phase (h : q.step ev = some q') :
    q'.phase = q.phase ∨ q.run q.phase ev = some q' := by
  rcases Option.or_eq_some_iff.mp h with ho | ⟨_, hr⟩
  · exact .inl (others_phase ho)
  · exact .inr hr

/-- Only the head of the loop starts an analysis. -/
theorem run_inAnalysis (h : q.run q.phase ev = some q') (hq : q.phase.inAnalysis = false)
    (hev : ∀ b, ev ≠ .next b) : q'.phase.inAnalysis = false := by
  unfold run at h
  split at h
  · split at h <;> cases h
    rfl
  · split at h <;> cases h
    rfl
  · exact absurd rfl (hev _)
  · cases h
    rfl
  · rw [leave_some h]
    rfl
  · rename_i hphase _
    rw [hphase] at hq
    cases hq
  · cases h
    rfl
  · cases h

theorem step_inAnalysis (h : q.step ev = some q') (hq : q.phase.inAnalysis = false)
    (hev : ∀ b, ev ≠ .next b) : q'.phase.inAnalysis = false := by
  rcases step_phase h with hsame | hrun
  · rw [hsame]
    exact hq
  · exact run_inAnalysis hrun hq hev

/-- Before the second query nothing but that query ends the waiting. -/
theorem step_waiting (h : q.step ev = some q') (hq : q.phase.waiting = true)
    (hev : ∀ order, ev ≠ .listSignals order) : q'.phase.waiting = true := by
  rcases step_phase h with hsame | hrun
  · rw [hsame]
    exact hq
  · unfold run at hrun
    split at hrun
    · split at hrun <;> cases hrun
      rfl
    · exact absurd rfl (hev _)
    · rename_i hphase
      rw [hphase] at hq
      cases hq
    · rename_i hphase
      rw [hphase] at hq
      cases hq
    · rw [leave_some hrun]
      rfl
    · rename_i hphase _
      rw [hphase] at hq
      cases hq
    · rename_i hphase
      rw [hphase] at hq
      cases hq
    · cases hrun

/-- The end of the loop, and a signal that the budget keeps waiting. -/
theorem next_inAnalysis {pendingIds signalIds : List ℕ} {processed : ℕ}
    (h : q.step (.next b) = some q') (hq : q.phase = .looping pendingIds signalIds processed)
    (hb : signalIds[processed]? = none ∨ b = true) : q'.phase.inAnalysis = false := by
  have hturn : q.turn pendingIds signalIds processed b = some q' := by
    unfold step at h
    rw [hq] at h
    exact h
  unfold turn at hturn
  split at hturn
  · cases hturn
    rfl
  · rename_i id hid
    have hb : b = true := by
      rcases hb with hnone | hb
      · rw [hid] at hnone
        cases hnone
      · exact hb
    rw [if_pos hb] at hturn
    split at hturn <;> cases hturn
    rfl

end QueueWorld

/-! ## The invariant -/

namespace BudgetWorld

variable {budget : ℚ} {provider : String} {w w' : BudgetWorld} {ev : BudgetEvent}

/-- Nothing has been taken up by the run. -/
structure Quiet (w : BudgetWorld) : Prop where
  stage : w.stage = .idle
  inAnalysis : w.queue.phase.inAnalysis = false
  llmCalls : w.llmCalls = []

structure Inv (provider : String) (w : BudgetWorld) : Prop where
  client : ∀ llm, w.service.llm = some llm → llm.provider = provider
  waiting : w.started = false → w.queue.phase.waiting = true
  quiet : w.started = false ∨ w.startedOver = true → w.Quiet
  late : w.late = []

/-- A run that started with its budget spent has had it reached since. -/
def OverReached (w : BudgetWorld) : Prop := w.startedOver = true → w.reached = true

theorem inv_init (t : Time) (usage : List APIUsage) : (init t usage).Inv provider where
  client := fun _ h => nomatch h
  waiting := fun _ => rfl
  quiet := fun _ => ⟨rfl, rfl, rfl⟩
  late := rfl

/-- With a client, `_daily_budget_exceeded` is about the costs of the provider. -/
theorem exceeded_iff (h : w.Inv provider) :
    dailyBudgetExceeded w.service w.usage budget w.queue.now = true ↔
      w.service.llm.isSome = true ∧ w.spent budget provider = true := by
  unfold dailyBudgetExceeded spent
  cases hllm : w.service.llm with
  | none => simp
  | some llm =>
    have hclient := h.client llm hllm
    simp [hclient]

theorem next_eq_some {id : ℕ} (h : w.next = some id) :
    ∃ pendingIds signalIds processed,
      w.queue.phase = .looping pendingIds signalIds processed ∧
        signalIds[processed]? = some id := by
  unfold next at h
  split at h
  · rename_i pendingIds signalIds processed hphase
    exact ⟨pendingIds, signalIds, processed, hphase, h⟩
  · cases h

/-- A step of the queue from the head of the loop is one of the loop. -/
theorem looping_of_step_next {q : QueueWorld} {b : Bool} (h : w.queue.step (.next b) = some q) :
    ∃ pendingIds signalIds processed,
      w.queue.phase = .looping pendingIds signalIds processed ∧
        w.next = signalIds[processed]? := by
  unfold QueueWorld.step at h
  unfold next
  cases hphase : w.queue.phase with
  | looping pendingIds signalIds processed => exact ⟨pendingIds, signalIds, processed, rfl, rfl⟩
  | analysing pendingIds signalIds processed a =>
    rw [hphase] at h
    cases a <;> cases h
  | _ =>
    rw [hphase] at h
    cases h

/-! ## One step -/

theorem inv_beginRun (h : w.Inv provider) (hs : w.beginRun budget provider = some w') :
    w'.Inv provider := by
  unfold beginRun at hs
  split at hs
  · rename_i pendingIds hphase
    by_cases hstarted : w.started = true
    · rw [if_pos hstarted] at hs
      cases hs
    · have hquiet := h.quiet (.inl (by simpa using hstarted))
      rw [if_neg hstarted] at hs
      dsimp only at hs
      split at hs
      · cases hs
        refine ⟨h.client, fun hno => ?_, fun _ => ⟨hquiet.stage, rfl, hquiet.llmCalls⟩, h.late⟩
        cases hno
      · cases hs
        refine ⟨h.client, fun hno => ?_, fun _ => ?_, h.late⟩
        · cases hno
        · exact ⟨hquiet.stage, hquiet.inAnalysis, hquiet.llmCalls⟩
  · cases hs

/-- The head of the loop. A signal is taken up only while the budget has not been reached. -/
theorem inv_checkNext (h : w.Inv provider) (hover : w.OverReached)
    (hc : clientAtBudget budget provider w .check = true)
    (hs : w.checkNext budget = some w') : w'.Inv provider := by
  unfold checkNext at hs
  by_cases hstage : w.stage = .idle
  · rw [if_pos hstage] at hs
    cases hnext : w.next with
    | none =>
      rw [hnext] at hs
      obtain ⟨q, hq, rfl⟩ := Option.map_eq_some_iff.mp hs
      obtain ⟨pendingIds, signalIds, processed, hphase, hids⟩ := looping_of_step_next hq
      have hend := QueueWorld.next_inAnalysis hq hphase (.inl (hids.symm.trans hnext))
      refine ⟨h.client, fun hno => ?_, fun hquiet => ?_, h.late⟩
      · have := h.waiting hno
        rw [hphase] at this
        cases this
      · exact ⟨hstage, hend, (h.quiet hquiet).llmCalls⟩
    | some id =>
      rw [hnext] at hs
      obtain ⟨pendingIds, signalIds, processed, hphase, hids⟩ := next_eq_some hnext
      have hstarted : w.started ≠ false := by
        intro hno
        have := h.waiting hno
        rw [hphase] at this
        cases this
      dsimp only at hs
      by_cases hexceeded : dailyBudgetExceeded w.service w.usage budget w.queue.now = true
      · rw [if_pos hexceeded] at hs
        obtain ⟨q, hq, rfl⟩ := Option.map_eq_some_iff.mp hs
        have hend := QueueWorld.next_inAnalysis hq hphase (.inr rfl)
        exact ⟨h.client, fun hno => absurd hno hstarted,
          fun hquiet => ⟨hstage, hend, (h.quiet hquiet).llmCalls⟩, h.late⟩
      · rw [if_neg hexceeded] at hs
        cases hs
        -- the check has passed, so by the condition the budget has not been reached
        have hreached : w.reached = false := by
          rw [exceeded_iff h] at hexceeded
          rcases of_decide_eq_true hc with hnone | hreached | hspent
          · rw [hnext] at hnone
            cases hnone
          · exact hreached
          · exact absurd hspent hexceeded
        refine ⟨h.client, fun hno => absurd hno hstarted, fun hquiet => ?_, ?_⟩
        · rcases hquiet with hno | hyes
          · exact absurd hno hstarted
          · have := hover hyes
            rw [hreached] at this
            cases this
        · show (if w.reached = true then _ else w.late) = []
          rw [hreached]
          exact h.late
  · rw [if_neg hstage] at hs
    cases hs

theorem inv_queue {ev : QueueEvent} (h : w.Inv provider)
    (hs : w.act budget provider (.queue ev) = some w') : w'.Inv provider := by
  simp only [act] at hs
  split at hs
  · rename_i hfree
    obtain ⟨q, hq, rfl⟩ := Option.map_eq_some_iff.mp hs
    have hnext : ∀ b, ev ≠ .next b := by
      intro b hb
      rw [hb] at hfree
      cases hfree
    refine ⟨h.client, fun hno => ?_, fun hquiet => ?_, h.late⟩
    · refine QueueWorld.step_waiting hq (h.waiting hno) fun order horder => ?_
      have hno : w.started = false := hno
      rw [horder] at hfree
      have hfree : w.started = true := hfree
      rw [hno] at hfree
      cases hfree
    · have hold := h.quiet hquiet
      have hend := QueueWorld.step_inAnalysis hq hold.inAnalysis hnext
      refine ⟨?_, hend, ?_⟩
      · show (if ev = .raise then TurnStage.idle else w.stage) = .idle
        rw [hold.stage]
        split <;> rfl
      · show w.llmCalls ++ callMade ev q.phase = []
        rw [hold.llmCalls, callMade_eq_nil hend]
        rfl
  · cases hs

/-- `create_llm_client` and the load of the signal, for a run that has taken one up. -/
theorem inv_turnStep (h : w.Inv provider) (hev : (∃ answer, ev = .create answer) ∨ ev = .load)
    (hs : w.act budget provider ev = some w') : w'.Inv provider := by
  have hbusy : w.stage ≠ .idle := by
    intro hidle
    rcases hev with ⟨answer, rfl⟩ | rfl
    · simp [act, hidle] at hs
    · simp [act, hidle] at hs
  -- so it is not one of those of which nothing is known but that they are quiet
  have hno : ¬ (w.started = false ∨ w.startedOver = true) :=
    fun hquiet => hbusy (h.quiet hquiet).stage
  have hstarted : w.started ≠ false := fun hs => hno (.inl hs)
  rcases hev with ⟨answer, rfl⟩ | rfl
  · simp only [act] at hs
    split at hs
    · cases answer with
      | ok u =>
        cases hs
        refine ⟨fun llm hllm => ?_, fun h => absurd h hstarted, fun h => absurd h hno, h.late⟩
        cases hllm
        rfl
      | error exc =>
        obtain ⟨q, _, rfl⟩ := Option.map_eq_some_iff.mp hs
        exact ⟨h.client, fun h => absurd h hstarted, fun h => absurd h hno, h.late⟩
    · cases hs
  · simp only [act] at hs
    split at hs
    · obtain ⟨q, _, rfl⟩ := Option.map_eq_some_iff.mp hs
      exact ⟨h.client, fun h => absurd h hstarted, fun h => absurd h hno, h.late⟩
    · cases hs

theorem inv_act (h : w.Inv provider) (hover : w.OverReached)
    (hc : clientAtBudget budget provider w ev = true)
    (hs : w.act budget provider ev = some w') : w'.Inv provider := by
  cases ev with
  | record provider' costEstimate =>
    cases hs
    refine ⟨h.client, h.waiting, fun hquiet => ?_, h.late⟩
    have hold := h.quiet hquiet
    exact ⟨hold.stage, hold.inAnalysis, hold.llmCalls⟩
  | begin => exact inv_beginRun h hs
  | check => exact inv_checkNext h hover hc hs
  | create answer => exact inv_turnStep h (.inl ⟨answer, rfl⟩) hs
  | load => exact inv_turnStep h (.inr rfl) hs
  | queue ev => exact inv_queue h hs

/-- Only the start of the run sets `startedOver`, and no event sets `reached`. -/
theorem act_started (hs : w.act budget provider ev = some w') (hev : ev ≠ .begin) :
    w'.startedOver = w.startedOver ∧ w'.reached = w.reached := by
  cases ev with
  | begin => exact absurd rfl hev
  | record provider' costEstimate =>
    cases hs
    exact ⟨rfl, rfl⟩
  | check =>
    simp only [act, checkNext] at hs
    split at hs
    · split at hs
      · obtain ⟨q, _, rfl⟩ := Option.map_eq_some_iff.mp hs
        exact ⟨rfl, rfl⟩
      · split at hs
        · obtain ⟨q, _, rfl⟩ := Option.map_eq_some_iff.mp hs
          exact ⟨rfl, rfl⟩
        · cases hs
          exact ⟨rfl, rfl⟩
    · cases hs
  | create answer =>
    simp only [act] at hs
    split at hs
    · cases answer with
      | ok u =>
        cases hs
        exact ⟨rfl, rfl⟩
      | error exc =>
        obtain ⟨q, _, rfl⟩ := Option.map_eq_some_iff.mp hs
        exact ⟨rfl, rfl⟩
    · cases hs
  | load =>
    simp only [act] at hs
    split at hs
    · obtain ⟨q, _, rfl⟩ := Option.map_eq_some_iff.mp hs
      exact ⟨rfl, rfl⟩
    · cases hs
  | queue ev =>
    simp only [act] at hs
    split at hs
    · obtain ⟨q, _, rfl⟩ := Option.map_eq_some_iff.mp hs
      exact ⟨rfl, rfl⟩
    · cases hs

/-- The costs that set `startedOver` are those that are noted after the step. -/
theorem beginRun_started (hs : w.beginRun budget provider = some w') :
    w'.started = true ∧ w'.startedOver = w'.spent budget provider := by
  unfold beginRun at hs
  split at hs
  · split at hs
    · cases hs
    · dsimp only at hs
      split at hs
      · cases hs
        exact ⟨rfl, rfl⟩
      · cases hs
        exact ⟨rfl, rfl⟩
  · cases hs

theorem overReached_step (hover : w.OverReached) (hs : w.step budget provider ev = some w') :
    w'.OverReached := by
  obtain ⟨u, hu, rfl⟩ := Option.map_eq_some_iff.mp hs
  intro hyes
  have hyes : u.startedOver = true := hyes
  show (u.reached || u.started && u.spent budget provider) = true
  by_cases hev : ev = .begin
  · subst hev
    obtain ⟨hstarted, hspent⟩ := beginRun_started hu
    rw [hstarted, ← hspent, hyes]
    simp
  · obtain ⟨hstart, hreached⟩ := act_started hu hev
    rw [hreached, hover (hstart ▸ hyes)]
    rfl

theorem inv_step (h : w.Inv provider ∧ w.OverReached)
    (hc : clientAtBudget budget provider w ev = true)
    (hs : w.step budget provider ev = some w') : w'.Inv provider ∧ w'.OverReached := by
  refine ⟨?_, overReached_step h.2 hs⟩
  obtain ⟨u, hu, rfl⟩ := Option.map_eq_some_iff.mp hs
  have hnew := inv_act h.1 h.2 hc hu
  refine ⟨hnew.client, hnew.waiting, fun hquiet => ?_, hnew.late⟩
  have hold := hnew.quiet hquiet
  exact ⟨hold.stage, hold.inAnalysis, hold.llmCalls⟩

/-- A signal that is taken up without the condition is late. -/
theorem late_step (h : w.Inv provider) (hc : ¬ clientAtBudget budget provider w ev = true)
    (hs : w.step budget provider ev = some w') : w'.late ≠ [] := by
  cases ev with
  | check =>
    obtain ⟨u, hu, rfl⟩ := Option.map_eq_some_iff.mp hs
    have hc : ¬ (w.next = none ∨ w.reached = false ∨
        w.service.llm.isSome = true ∧ w.spent budget provider = true) := by
      simpa [clientAtBudget] using hc
    obtain ⟨id, hid⟩ := Option.ne_none_iff_exists'.mp fun hnone => hc (.inl hnone)
    have hreached : w.reached = true := by
      cases hr : w.reached with
      | true => rfl
      | false => exact absurd (.inr (.inl hr)) hc
    have hpass : ¬ dailyBudgetExceeded w.service w.usage budget w.queue.now = true := by
      rw [exceeded_iff h]
      exact fun hspent => hc (.inr (.inr hspent))
    simp only [act, checkNext, hid, if_neg hpass] at hu
    split at hu
    · cases hu
      show (if w.reached = true then w.late ++ [id] else w.late) ≠ []
      rw [if_pos hreached]
      exact List.append_ne_nil_of_right_ne_nil _ (List.cons_ne_nil _ _)
    · cases hu
  | _ => exact absurd rfl hc

end BudgetWorld

/-! ## Runs -/

/-- The budget stops a run exactly if each check that comes after it was reached, and has a
signal to check for, finds a client and the costs of the day at the budget. -/
theorem budgetKept_iff (budget : ℚ) (provider : String) (t : Time) (usage : List APIUsage)
    (events : List BudgetEvent) :
    Run.AllStates (BudgetWorld.step budget provider) BudgetKept (BudgetWorld.init t usage) events ↔
      Run.AllSteps (BudgetWorld.step budget provider)
        (fun w ev => clientAtBudget budget provider w ev = true)
        (BudgetWorld.init t usage) events := by
  refine Run.allStates_iff_allSteps (I := fun w : BudgetWorld => w.Inv provider ∧ w.OverReached)
    (fun w hw => ⟨fun hyes => (hw.1.quiet (.inr hyes)).llmCalls, hw.1.late⟩)
    (fun w ev w' hw hc hs => BudgetWorld.inv_step hw hc hs) (fun w ev w' hw hc hs hkept => ?_)
    ⟨BudgetWorld.inv_init t usage, fun h => nomatch h⟩ events
  exact BudgetWorld.late_step hw.1 hc hs hkept.2

/-- The budget of 5.00 is spent; the run takes up its only signal and classifies it. -/
def spentAtStart : List BudgetEvent :=
  [.queue (.addSignal 1 .other none (some (String.ofList (List.replicate 50 'a')))),
   .record "claude" (some 5), .queue (.listPending [0]), .begin, .queue (.listSignals [0]),
   .check, .create (.ok ()), .load, .queue .check]

/-- A run that starts with its budget spent and calls the model. -/
theorem spentAtStart_calls :
    ¬ Run.AllStates (BudgetWorld.step 5 "claude") BudgetKept (BudgetWorld.init 0 [])
      spentAtStart := by
  refine Run.not_allStates (q := fun w => w.startedOver ∧ w.llmCalls = [0]) (fun w hw => ?_) ?_
  · refine decide_eq_false fun hq => ?_
    have hnil := hw.1 hq.1
    rw [hq.2] at hnil
    cases hnil
  · decide +kernel

end LeadPulse
