import LeadPulse.Signals.QueueTheorems

/-!
# Analysing several signals at once

`analyze_signal_ids_inline` runs one coroutine for each signal on one `IntelligenceService`, at
most three at a time, and hands each signal whose coroutine has not raised to `execute_action`.
The coroutines may switch at every await. The calls of the model and of `create_llm_client`
succeed; a query or a commit may also raise.

`_ensure_llm` sets its flag before it awaits the client, so a second coroutine goes on without
one: `secondCoroutine_leaves` is a run in which it finds none at stage 1. By
`analysedInline_iff` that is the only way to leave a signal behind.
-/

namespace LeadPulse

/-! ## The table -/

/-- The signals, and the sequence that their ids come from. -/
structure SignalTable where
  now : Time
  nextId : ℕ
  signals : List Signal
deriving DecidableEq, Repr

/-- What other workers do. -/
inductive SignalWrite where
  | tick (d : ℕ)
  | add (companyId : ℕ) (signalType : SignalType) (rawContentHash rawMarkdown : Option String)
  | delete (signalId : ℕ)
  | verdict (loaded verdict : Signal)
deriving DecidableEq, Repr

namespace SignalTable

/-- The commit of a verdict. -/
def flush (table : SignalTable) (loaded verdict : Signal) : SignalTable :=
  { table with
    signals := Table.modify Signal.id table.signals loaded.id (Signal.flush loaded verdict) }

def write (table : SignalTable) : SignalWrite → Option SignalTable
  | .tick d => some { table with now := table.now + d }
  | .add companyId signalType rawContentHash rawMarkdown =>
    some { table with
      nextId := table.nextId + 1
      signals := table.signals ++ [{
        id := table.nextId, companyId := companyId, signalType := signalType,
        rawContentHash := rawContentHash, rawMarkdown := rawMarkdown, createdAt := table.now }] }
  | .delete signalId => some { table with
      signals := Table.remove Signal.id table.signals signalId }
  | .verdict loaded verdict =>
    if loaded.isProcessed = false ∧ verdict.isProcessed = true then
      some (table.flush loaded verdict)
    else none

/-- The row is there and waits for its analysis. -/
def unprocessed (table : SignalTable) (signalId : ℕ) : Bool :=
  (Table.get Signal.id table.signals signalId).any (! ·.isProcessed)

end SignalTable

/-! ## The coroutines -/

/-- Where a coroutine of `_analyze_one` is. -/
inductive InlineStage where
  /-- Waiting for the semaphore. -/
  | waiting
  /-- In `create_llm_client`. -/
  | creating
  /-- In `_load_signal`. -/
  | loading
  /-- In `_build_icp_context`, the last await before stage 1. -/
  | contextualizing (signal : Signal)
  /-- In the analysis. -/
  | analysing (a : Analysis)
  /-- The value of `_analyze_one`. -/
  | finished (success : Bool)
deriving DecidableEq, Repr

structure Coroutine where
  signalId : ℕ
  stage : InlineStage
deriving DecidableEq, Repr

/-- Between entering the semaphore and leaving it. -/
def Coroutine.active (c : Coroutine) : Bool :=
  match c.stage with
  | .waiting | .finished _ => false
  | _ => true

/-- The value of a coroutine that has returned. -/
def Coroutine.result (c : Coroutine) : Option Bool :=
  match c.stage with
  | .finished success => some success
  | _ => none

inductive InlinePhase where
  | idle
  /-- In `asyncio.gather`. -/
  | gathering
  /-- In the loop over the results. -/
  | handing (results : List (ℕ × Bool))
deriving DecidableEq, Repr

structure InlineWorld where
  table : SignalTable
  service : IntelligenceService
  coroutines : List Coroutine
  phase : InlinePhase
  /-- The signals that an `analyze` left unprocessed when it returned. -/
  leftBehind : List ℕ
  /-- The signals that were unprocessed when they were handed to `execute_action`. -/
  handedUnprocessed : List ℕ
deriving DecidableEq, Repr

inductive InlineEvent where
  | other (write : SignalWrite)
  | call (signalIds : List ℕ)
  /-- A coroutine, by its position, enters the semaphore. -/
  | enter (i : ℕ)
  | created (i : ℕ) (client : LLMService)
  | load (i : ℕ)
  | hash (i : ℕ)
  | context (i : ℕ)
  | classify (i : ℕ) (answer : Classification)
  | score (i : ℕ) (answer : ScoreResult)
  | commit (i : ℕ)
  /-- A query or a commit raises. -/
  | raise (i : ℕ)
  | gathered
  | handOff
deriving DecidableEq, Repr

namespace InlineWorld

def init (t : Time) : InlineWorld where
  table := { now := t, nextId := 0, signals := [] }
  service := .new none
  coroutines := []
  phase := .idle
  leftBehind := []
  handedUnprocessed := []

def setStage (w : InlineWorld) (i signalId : ℕ) (stage : InlineStage) : InlineWorld :=
  { w with coroutines := w.coroutines.set i ⟨signalId, stage⟩ }

/-- `analyze` returns: whatever its value, `_analyze_one` returns `True`. -/
def returned (w : InlineWorld) (i signalId : ℕ) : InlineWorld :=
  { w.setStage i signalId (.finished true) with
    leftBehind := if w.table.unprocessed signalId then w.leftBehind ++ [signalId]
      else w.leftBehind }

def proceed (w : InlineWorld) (i signalId : ℕ) : Outcome → InlineWorld
  | .running a => w.setStage i signalId (.analysing a)
  | .returned _ => w.returned i signalId
  | .raised => w.setStage i signalId (.finished false)

/-- The commit of a verdict raises if the row is gone. -/
def commitStep (w : InlineWorld) (i signalId : ℕ) (loaded verdict : Signal) : InlineWorld :=
  if (Table.get Signal.id w.table.signals loaded.id).isSome then
    { w with table := w.table.flush loaded verdict }.returned i signalId
  else w.setStage i signalId (.finished false)

/-- The steps of a coroutine. -/
def resume (w : InlineWorld) (i signalId : ℕ) : InlineStage → InlineEvent → Option InlineWorld
  | .waiting, .enter _ =>
    -- `asyncio.Semaphore(3)`
    if w.coroutines.countP Coroutine.active < 3 then
      if w.service.llmInitialized then some (w.setStage i signalId .loading)
      else some { w.setStage i signalId .creating with service := w.service.ensureLlm }
    else none
  | .creating, .created _ client =>
    some { w.setStage i signalId .loading with service := w.service.created client }
  | .loading, .load _ => some (w.proceed i signalId (Analysis.load w.table.signals signalId))
  | .analysing (.checking s), .hash _ =>
    if hashAlreadyProcessed w.table.signals s then
      some (w.setStage i signalId (.analysing (.committing s s.skip)))
    else some (w.setStage i signalId (.contextualizing s))
  | .contextualizing s, .context _ =>
    if w.service.llm.isSome then some (w.setStage i signalId (.analysing (.classifying s)))
    else some (w.returned i signalId)
  | .analysing (.classifying s), .classify _ answer =>
    some (w.proceed i signalId (Analysis.classify s (.ok answer)))
  | .analysing (.scoring s signalType), .score _ answer =>
    some (w.proceed i signalId (Analysis.score s signalType (.ok answer)))
  | .analysing (.committing loaded verdict), .commit _ =>
    some (w.commitStep i signalId loaded verdict)
  | .loading, .raise _ | .contextualizing _, .raise _ | .analysing (.checking _), .raise _
  | .analysing (.committing _ _), .raise _ => some (w.setStage i signalId (.finished false))
  | _, _ => none

/-- The coroutine that an event belongs to. -/
def position : InlineEvent → Option ℕ
  | .enter i | .created i _ | .load i | .hash i | .context i | .classify i _ | .score i _
  | .commit i | .raise i => some i
  | _ => none

/-- The signals with the results of `gather`. -/
def results (w : InlineWorld) : List (ℕ × Bool) :=
  w.coroutines.filterMap fun c => c.result.map fun success => (c.signalId, success)

/-- The function itself, and the other workers. The ids of the argument are those of signals. -/
def main (w : InlineWorld) : InlineEvent → Option InlineWorld
  | .other write => (w.table.write write).map fun table => { w with table := table }
  | .call signalIds =>
    if w.phase = .idle ∧ signalIds ≠ [] ∧ ∀ signalId ∈ signalIds, signalId < w.table.nextId then
      some { w with
        service := .new none
        coroutines := signalIds.map fun signalId => ⟨signalId, .waiting⟩
        phase := .gathering }
    else none
  | .gathered =>
    if w.phase = .gathering ∧ ∀ c ∈ w.coroutines, c.result.isSome then
      some { w with phase := .handing w.results }
    else none
  | .handOff =>
    match w.phase with
    | .handing ((signalId, success) :: results) =>
      some { w with
        phase := .handing results
        handedUnprocessed := if success ∧ w.table.unprocessed signalId then
          w.handedUnprocessed ++ [signalId] else w.handedUnprocessed }
    | .handing [] => some { w with phase := .idle, coroutines := [] }
    | _ => none
  | _ => none

def step (w : InlineWorld) (ev : InlineEvent) : Option InlineWorld :=
  match position ev with
  | none => w.main ev
  | some i => w.coroutines[i]?.bind fun c => w.resume i c.signalId c.stage ev

end InlineWorld

/-! ## The property and its condition -/

/-- No analysis has left an unprocessed signal behind, and none was handed on. -/
def AnalysedInline (w : InlineWorld) : Prop := w.leftBehind = [] ∧ w.handedUnprocessed = []

/-- A coroutine that comes to stage 1 finds a client, or its signal needs none any more. -/
def clientAtStage1 (w : InlineWorld) : InlineEvent → Bool
  | .context i =>
    match w.coroutines[i]? with
    | some ⟨signalId, .contextualizing _⟩ =>
      w.service.llm.isSome ∨ w.table.unprocessed signalId = false
    | _ => true
  | _ => true

/-! ## The invariant -/

theorem SignalTable.unprocessed_eq_false {table : SignalTable} {signalId : ℕ} :
    table.unprocessed signalId = false ↔
      (Table.get Signal.id table.signals signalId).all (·.isProcessed) = true := by
  unfold SignalTable.unprocessed
  cases Table.get Signal.id table.signals signalId with
  | none => simp
  | some s => simp

/-- What is known of a coroutine in each stage. -/
def StageInv (nextId : ℕ) (signals : List Signal) (signalId : ℕ) : InlineStage → Prop
  | .contextualizing s => s.id = signalId ∧ s.isProcessed = false
  | .analysing a => a.signal.id = signalId ∧ a.Valid
  | .finished true => Settled nextId signals signalId
  | _ => True

structure Coroutine.Inv (nextId : ℕ) (signals : List Signal) (c : Coroutine) : Prop where
  lt : c.signalId < nextId
  stage : StageInv nextId signals c.signalId c.stage

namespace InlineWorld

variable {w w' : InlineWorld} {ev : InlineEvent} {i signalId : ℕ}

structure Inv (w : InlineWorld) : Prop where
  issued : Issued w.table.nextId w.table.signals
  coroutines : ∀ c ∈ w.coroutines, c.Inv w.table.nextId w.table.signals
  results : ∀ results, w.phase = .handing results → ∀ r ∈ results, r.2 = true →
    Settled w.table.nextId w.table.signals r.1
  leftBehind : w.leftBehind = []
  handedUnprocessed : w.handedUnprocessed = []

theorem inv_init (t : Time) : (init t).Inv where
  issued := fun _ hs => nomatch hs
  coroutines := fun _ hc => nomatch hc
  results := fun _ hphase => nomatch hphase
  leftBehind := rfl
  handedUnprocessed := rfl

/-- A change of the table that loses no id and unsettles no signal. -/
theorem inv_table {table : SignalTable} (h : w.Inv)
    (hissued : Issued table.nextId table.signals) (hnext : w.table.nextId ≤ table.nextId)
    (hsettled : ∀ id, Settled w.table.nextId w.table.signals id →
      Settled table.nextId table.signals id) :
    { w with table := table }.Inv where
  issued := hissued
  coroutines := by
    intro c hc
    obtain ⟨hlt, hstage⟩ := h.coroutines c hc
    refine ⟨Nat.lt_of_lt_of_le hlt hnext, ?_⟩
    cases hs : c.stage with
    | finished success =>
      rw [hs] at hstage
      cases success with
      | true => exact hsettled _ hstage
      | false => trivial
    | _ =>
      rw [hs] at hstage
      exact hstage
  results := fun results hphase r hr hsuccess => hsettled _ (h.results results hphase r hr hsuccess)
  leftBehind := h.leftBehind
  handedUnprocessed := h.handedUnprocessed

theorem inv_service (h : w.Inv) (service : IntelligenceService) :
    { w with service := service }.Inv :=
  ⟨h.issued, h.coroutines, h.results, h.leftBehind, h.handedUnprocessed⟩

theorem inv_flush {loaded verdict : Signal} (h : w.Inv) (hl : loaded.isProcessed = false)
    (hv : verdict.isProcessed = true) : { w with table := w.table.flush loaded verdict }.Inv :=
  inv_table h (h.issued.flush loaded verdict) (Nat.le_refl _) fun _ hid => hid.flush hl hv

theorem inv_other {write : SignalWrite} {table : SignalTable} (h : w.Inv)
    (hs : w.table.write write = some table) : { w with table := table }.Inv := by
  cases write with
  | tick d =>
    cases hs
    exact inv_table h h.issued (Nat.le_refl _) fun id hid => hid
  | add companyId signalType rawContentHash rawMarkdown =>
    cases hs
    exact inv_table h (Table.lt_append h.issued rfl) (Nat.le_succ _) fun id hid => hid.append rfl
  | delete signalId =>
    cases hs
    refine inv_table h (fun s hs => ?_) (Nat.le_refl _) fun id hid => hid.remove
    exact h.issued s (List.mem_filter.mp hs).1
  | verdict loaded verdict =>
    simp only [SignalTable.write] at hs
    split at hs
    · rename_i hv
      cases hs
      exact inv_flush h hv.1 hv.2
    · cases hs

/-! ## The steps of a coroutine -/

theorem inv_setStage {stage : InlineStage} (h : w.Inv) (hlt : signalId < w.table.nextId)
    (hstage : StageInv w.table.nextId w.table.signals signalId stage) :
    (w.setStage i signalId stage).Inv where
  issued := h.issued
  coroutines := by
    intro c hc
    rcases List.mem_or_eq_of_mem_set hc with hold | rfl
    · exact h.coroutines c hold
    · exact ⟨hlt, hstage⟩
  results := h.results
  leftBehind := h.leftBehind
  handedUnprocessed := h.handedUnprocessed

/-- An analysis that returns with its signal settled leaves nothing behind. -/
theorem inv_returned (h : w.Inv) (hset : Settled w.table.nextId w.table.signals signalId) :
    (w.returned i signalId).Inv := by
  have hnew : (w.setStage i signalId (.finished true)).Inv := inv_setStage h hset.lt hset
  refine ⟨hnew.issued, hnew.coroutines, hnew.results, ?_, hnew.handedUnprocessed⟩
  show (if w.table.unprocessed signalId = true then _ else w.leftBehind) = []
  rw [SignalTable.unprocessed_eq_false.mpr hset.processed]
  exact h.leftBehind

theorem inv_proceed {o : Outcome} (h : w.Inv) (hlt : signalId < w.table.nextId)
    (hrun : ∀ a, o = .running a → a.signal.id = signalId ∧ a.Valid)
    (hret : ∀ b, o = .returned b → Settled w.table.nextId w.table.signals signalId) :
    (w.proceed i signalId o).Inv := by
  cases o with
  | running a => exact inv_setStage h hlt (hrun a rfl)
  | returned b => exact inv_returned h (hret b rfl)
  | raised => exact inv_setStage h hlt trivial

theorem inv_commitStep {loaded verdict : Signal} (h : w.Inv) (hlt : signalId < w.table.nextId)
    (hid : loaded.id = signalId) (hl : loaded.isProcessed = false) (hv : Verdict loaded verdict) :
    (w.commitStep i signalId loaded verdict).Inv := by
  unfold commitStep
  by_cases hrow : (Table.get Signal.id w.table.signals loaded.id).isSome = true
  · rw [if_pos hrow]
    -- the row has its verdict now
    refine inv_returned (inv_flush h hl hv.processed) ⟨hlt, ?_⟩
    show (Table.get Signal.id (Table.modify Signal.id _ loaded.id _) signalId).all _ = true
    rw [hid, Table.get_modify_self (Signal.flush_id loaded verdict), Option.all_map]
    cases Table.get Signal.id w.table.signals signalId with
    | none => rfl
    | some row => exact Signal.flush_isProcessed hl hv.processed
  · rw [if_neg hrow]
    exact inv_setStage h hlt trivial

theorem inv_resume {c : Coroutine} (h : w.Inv) (hc : c.Inv w.table.nextId w.table.signals)
    (hclient : ∀ j s, ev = .context j → c.stage = .contextualizing s →
      w.service.llm.isSome = true ∨ w.table.unprocessed c.signalId = false)
    (hs : w.resume i c.signalId c.stage ev = some w') : w'.Inv := by
  obtain ⟨hlt, hstage⟩ := hc
  unfold resume at hs
  split at hs
  · -- the semaphore
    split at hs
    · split at hs
      · cases hs
        exact inv_setStage h hlt trivial
      · cases hs
        have hnew : (w.setStage i c.signalId .creating).Inv := inv_setStage h hlt trivial
        exact inv_service hnew _
    · cases hs
  · cases hs
    have hnew : (w.setStage i c.signalId .loading).Inv := inv_setStage h hlt trivial
    exact inv_service hnew _
  · cases hs
    refine inv_proceed h hlt (fun a ha => ?_) fun b hb => ⟨hlt, Analysis.load_returned hb⟩
    obtain ⟨hrow, hvalid⟩ := Analysis.load_running ha
    exact ⟨Table.key_of_get hrow, hvalid⟩
  · rename_i s _ hst
    rw [hst] at hstage
    split at hs
    · cases hs
      refine inv_setStage h hlt ⟨hstage.1, hstage.2.unprocessed, fun l v hlv => ?_⟩
      cases hlv
      exact s.verdict_skip
    · cases hs
      exact inv_setStage h hlt ⟨hstage.1, hstage.2.unprocessed⟩
  · rename_i s j hst
    rw [hst] at hstage
    split at hs
    · cases hs
      exact inv_setStage h hlt ⟨hstage.1, hstage.2, fun l v hlv => by cases hlv⟩
    · rename_i hllm
      cases hs
      -- without a client, the signal must not need an analysis any more
      rcases hclient j s rfl hst with hsome | hset
      · exact absurd hsome hllm
      · exact inv_returned h ⟨hlt, SignalTable.unprocessed_eq_false.mp hset⟩
  · rename_i s _ answer hst
    rw [hst] at hstage
    cases hs
    refine inv_proceed h hlt (fun a ha => ?_) fun b hb => absurd hb Analysis.classify_ne_returned
    obtain ⟨hsame, hv⟩ := Analysis.classify_running ha
    rw [hsame]
    exact ⟨hstage.1, hv hstage.2.unprocessed⟩
  · rename_i s signalType _ answer hst
    rw [hst] at hstage
    cases hs
    refine inv_proceed h hlt (fun a ha => ?_) fun b hb => absurd hb Analysis.score_ne_returned
    obtain ⟨hsame, hv⟩ := Analysis.score_running ha
    rw [hsame]
    exact ⟨hstage.1, hv hstage.2.unprocessed⟩
  · rename_i loaded verdict _ hst
    rw [hst] at hstage
    cases hs
    exact inv_commitStep h hlt hstage.1 hstage.2.unprocessed (hstage.2.verdict _ _ rfl)
  · cases hs
    exact inv_setStage h hlt trivial
  · cases hs
    exact inv_setStage h hlt trivial
  · cases hs
    exact inv_setStage h hlt trivial
  · cases hs
    exact inv_setStage h hlt trivial
  · cases hs

/-! ## The function -/

/-- The signals of the successful coroutines are settled. -/
theorem settled_of_results (h : w.Inv) : ∀ r ∈ w.results, r.2 = true →
    Settled w.table.nextId w.table.signals r.1 := by
  intro r hr hsuccess
  obtain ⟨c, hc, hresult⟩ := List.mem_filterMap.mp hr
  have hstage := (h.coroutines c hc).stage
  unfold Coroutine.result at hresult
  split at hresult
  · rename_i success hst
    cases hresult
    have hsuccess : success = true := hsuccess
    rw [hst, hsuccess] at hstage
    exact hstage
  · cases hresult

theorem inv_main (h : w.Inv) (hs : w.main ev = some w') : w'.Inv := by
  unfold main at hs
  split at hs
  · obtain ⟨table, htable, rfl⟩ := Option.map_eq_some_iff.mp hs
    exact inv_other h htable
  · split at hs
    · rename_i hcall
      cases hs
      refine ⟨h.issued, fun c hc => ?_, (fun _ hphase => nomatch hphase), h.leftBehind,
        h.handedUnprocessed⟩
      obtain ⟨signalId, hid, rfl⟩ := List.mem_map.mp hc
      exact ⟨hcall.2.2 signalId hid, trivial⟩
    · cases hs
  · split at hs
    · cases hs
      refine ⟨h.issued, h.coroutines, fun results hphase => ?_, h.leftBehind, h.handedUnprocessed⟩
      cases hphase
      exact settled_of_results h
    · cases hs
  · split at hs
    · rename_i signalId success results hphase
      cases hs
      have hset := h.results _ hphase
      refine ⟨h.issued, h.coroutines, fun rest hrest => ?_, h.leftBehind, ?_⟩
      · cases hrest
        exact fun r hr => hset r (List.mem_cons_of_mem _ hr)
      · show (if success = true ∧ w.table.unprocessed signalId = true then _ else _) = []
        rw [if_neg, h.handedUnprocessed]
        intro hbad
        have hthis := hset (signalId, success) List.mem_cons_self hbad.1
        rw [SignalTable.unprocessed_eq_false.mpr hthis.processed] at hbad
        cases hbad.2
    · cases hs
      exact ⟨h.issued, (fun _ hc => nomatch hc), (fun _ hphase => nomatch hphase), h.leftBehind,
        h.handedUnprocessed⟩
    · cases hs
  · cases hs

theorem inv_step (h : w.Inv) (hc : clientAtStage1 w ev = true) (hs : w.step ev = some w') :
    w'.Inv := by
  unfold step at hs
  split at hs
  · exact inv_main h hs
  · rename_i i hpos
    obtain ⟨c, hget, hres⟩ := Option.bind_eq_some_iff.mp hs
    refine inv_resume h (h.coroutines c (List.mem_of_getElem? hget)) (fun j s hev hst => ?_) hres
    rw [hev] at hpos hc
    cases hpos
    obtain ⟨signalId, stage⟩ := c
    have hst : stage = .contextualizing s := hst
    simp only [clientAtStage1, hget, hst, decide_eq_true_eq] at hc
    exact hc

/-- A coroutine without a client returns, and an unprocessed signal stays behind. -/
theorem leftBehind_step (hc : ¬ clientAtStage1 w ev = true) (hs : w.step ev = some w') :
    w'.leftBehind ≠ [] := by
  cases ev with
  | context i =>
    obtain ⟨c, hget, hres⟩ := Option.bind_eq_some_iff.mp hs
    obtain ⟨signalId, stage⟩ := c
    simp only [clientAtStage1, hget] at hc
    split at hc
    · rename_i s hcor
      cases hcor
      have hc : ¬ (w.service.llm.isSome = true ∨ w.table.unprocessed signalId = false) := by
        simpa using hc
      have hllm : ¬ w.service.llm.isSome = true := fun hsome => hc (.inl hsome)
      have hwaits : w.table.unprocessed signalId = true := by
        cases hu : w.table.unprocessed signalId with
        | true => rfl
        | false => exact absurd (.inr hu) hc
      simp only [resume, if_neg hllm] at hres
      cases hres
      show (if w.table.unprocessed signalId = true then w.leftBehind ++ [signalId] else _) ≠ []
      rw [if_pos hwaits]
      exact List.append_ne_nil_of_right_ne_nil _ (List.cons_ne_nil _ _)
    · exact absurd rfl hc
  | _ => exact absurd rfl hc

end InlineWorld

/-! ## Runs -/

/-- No signal is left behind, or handed on unprocessed, exactly if each coroutine that comes to
stage 1 with a signal that is still unprocessed finds the client. -/
theorem analysedInline_iff (t : Time) (events : List InlineEvent) :
    Run.AllStates InlineWorld.step AnalysedInline (InlineWorld.init t) events ↔
      Run.AllSteps InlineWorld.step (fun w ev => clientAtStage1 w ev = true)
        (InlineWorld.init t) events :=
  Run.allStates_iff_allSteps (I := InlineWorld.Inv)
    (fun _ hw => ⟨hw.leftBehind, hw.handedUnprocessed⟩)
    (fun _ _ _ hw hc hs => InlineWorld.inv_step hw hc hs)
    (fun _ _ _ _ hc hs hkept => InlineWorld.leftBehind_step hc hs hkept.1)
    (InlineWorld.inv_init t) events

/-- Two signals with enough content. The first coroutine waits for `create_llm_client`; the
second one finds the flag set, and comes to stage 1 before the client is there. -/
def secondCoroutine : List InlineEvent :=
  let content := some (String.ofList (List.replicate 50 'a'))
  [.other (.add 1 .other none content), .other (.add 1 .other none content), .call [0, 1],
   .enter 0, .enter 1, .load 1, .hash 1, .context 1, .created 0 ⟨"claude"⟩, .load 0, .hash 0,
   .context 0, .classify 0 ⟨"no_signal", ""⟩, .commit 0, .gathered, .handOff, .handOff]

/-- The second signal is handed to `execute_action` unprocessed. -/
theorem secondCoroutine_leaves :
    ¬ Run.AllStates InlineWorld.step AnalysedInline (InlineWorld.init 0) secondCoroutine := by
  refine Run.not_allStates (q := fun w => w.handedUnprocessed = [1]) (fun w hw => ?_) ?_
  · refine decide_eq_false fun hq => ?_
    have hnil := hw.2
    rw [hq] at hnil
    cases hnil
  · decide +kernel

end LeadPulse
