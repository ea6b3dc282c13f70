import LeadPulse.Lib.Table
import LeadPulse.Models

/-!
# Analysing a signal

`IntelligenceService.analyze` of `services/intelligence.py` as a machine that stops at each
await: it reads the signal, looks for a signal with the same content, asks the model for a
classification and for a score, and commits the verdict. What a stage is answered is an
argument; the rows of the table are those of the moment.

`Signal.flush` is the `UPDATE` that a commit sends for a changed object: only attributes
that differ from what was loaded are written, the others keep what the row has by then.
-/

namespace LeadPulse

/-! ## Pure parts -/

/-- `_MIN_CONTENT_LENGTH`. -/
def minContentLength : ℕ := 50

/-- `_pre_filter`: the reason to skip a signal. -/
def preFilter (content : String) : Option String :=
  if content.length < minContentLength then some "content_too_short" else none

/-- `_ACTION_THRESHOLDS`. -/
def actionThresholds : List (ℤ × SignalAction) :=
  [(75, .notifyImmediate), (50, .notifyDigest), (25, .enrichFurther), (0, .ignore)]

/-- `_score_to_action`: the action of the first threshold that the score reaches. -/
def scoreToAction (score : ℤ) : SignalAction :=
  ((actionThresholds.find? fun t => t.1 ≤ score).map (·.2)).getD .ignore

/-- What stage 1 answers. -/
structure Classification where
  signalType : String
  reasoning : String
deriving DecidableEq, Repr

/-- What stage 2 answers. -/
structure ScoreResult where
  relevanceScore : ℤ
  reasoning : String
deriving DecidableEq, Repr

namespace Signal

/-- A signal that is not worth a call of the model. -/
def skip (s : Signal) : Signal :=
  { s with isProcessed := true, signalType := .noSignal, actionTaken := some .ignore }

/-- A signal that was classified as no signal. -/
def dismiss (s : Signal) (c : Classification) : Signal :=
  { s with signalType := .noSignal, relevanceScore := some 0, actionTaken := some .ignore,
           llmSummary := some c.reasoning, isProcessed := true }

/-- A signal with its score and the action that goes with it. -/
def conclude (s : Signal) (signalType : SignalType) (r : ScoreResult) : Signal :=
  { s with signalType := signalType, relevanceScore := some r.relevanceScore,
           llmSummary := some r.reasoning, actionTaken := some (scoreToAction r.relevanceScore),
           isProcessed := true }

/-- The columns of the row after an `UPDATE` of what has changed between `loaded` and
`modified`. -/
def flush (loaded modified row : Signal) : Signal :=
  { row with
    signalType := pick (·.signalType)
    relevanceScore := pick (·.relevanceScore)
    llmSummary := pick (·.llmSummary)
    actionTaken := pick (·.actionTaken)
    isProcessed := pick (·.isProcessed)
    actionExecutedAt := pick (·.actionExecutedAt) }
where
  pick {β : Type} [DecidableEq β] (field : Signal → β) : β :=
    if field modified = field loaded then field row else field modified

end Signal

/-- `_hash_already_processed`: another signal of the company with the same content has been
processed. -/
def hashAlreadyProcessed (signals : List Signal) (s : Signal) : Bool :=
  match s.rawContentHash with
  | none | some "" => false
  | some contentHash => signals.any fun t =>
      t.rawContentHash = some contentHash ∧ t.companyId = s.companyId ∧ t.isProcessed ∧ t.id ≠ s.id

/-! ## The service -/

/-- `LLMService`, by the name under which its costs are recorded. -/
structure LLMService where
  provider : String
deriving DecidableEq, Repr

/-- `IntelligenceService`: the client, and whether its creation has begun. -/
structure IntelligenceService where
  llm : Option LLMService
  llmInitialized : Bool
deriving DecidableEq, Repr

namespace IntelligenceService

/-- `IntelligenceService(llm_client)`. -/
def new (llmClient : Option LLMService) : IntelligenceService where
  llm := llmClient
  llmInitialized := llmClient.isSome

/-- `_ensure_llm` up to `await create_llm_client()`; the flag is set before the await. -/
def ensureLlm (service : IntelligenceService) : IntelligenceService :=
  { service with llmInitialized := true }

/-- The end of `_ensure_llm`: the client is there. -/
def created (service : IntelligenceService) (client : LLMService) : IntelligenceService :=
  { service with llm := some client }

end IntelligenceService

/-! ## The machine -/

/-- Where an analysis is suspended. -/
inductive Analysis where
  /-- Loaded; the query for the content hash is next. -/
  | checking (signal : Signal)
  /-- Waiting for stage 1. -/
  | classifying (signal : Signal)
  /-- Waiting for stage 2. -/
  | scoring (signal : Signal) (signalType : SignalType)
  /-- The verdict is ready to be committed. -/
  | committing (loaded verdict : Signal)
deriving DecidableEq, Repr

/-- What a stage leads to: the next await, the value of `analyze`, or an exception. -/
inductive Outcome where
  | running (a : Analysis)
  | returned (b : Bool)
  | raised
deriving DecidableEq, Repr

namespace Analysis

/-- Loading the signal, and the pre-filter. -/
def load (signals : List Signal) (signalId : ℕ) : Outcome :=
  match Table.get Signal.id signals signalId with
  | none => .returned false
  | some signal =>
    if signal.isProcessed then .returned true
    else if (preFilter (signal.rawMarkdown.getD "")).isSome then
      .running (.committing signal signal.skip)
    else .running (.checking signal)

/-- The content hash, and whether there is a model (`llm`). -/
def check (signals : List Signal) (llm : Bool) (signal : Signal) : Outcome :=
  if hashAlreadyProcessed signals signal then .running (.committing signal signal.skip)
  else if llm then .running (.classifying signal)
  else .returned false

/-- Stage 1; an unknown type is `OTHER`. -/
def classify (signal : Signal) : Except String Classification → Outcome
  | .error _ => .raised
  | .ok c =>
    match (SignalType.ofValue? c.signalType).getD .other with
    | .noSignal => .running (.committing signal (signal.dismiss c))
    | signalType => .running (.scoring signal signalType)

/-- Stages 2 and 3. -/
def score (signal : Signal) (signalType : SignalType) : Except String ScoreResult → Outcome
  | .error _ => .raised
  | .ok r => .running (.committing signal (signal.conclude signalType r))

/-- The signal as it was loaded. -/
def signal : Analysis → Signal
  | checking s | classifying s | scoring s _ | committing s _ => s

end Analysis

/-! ## What a verdict is -/

@[simp] theorem Signal.flush_id (l m r : Signal) : (Signal.flush l m r).id = r.id := rfl

@[simp] theorem Signal.flush_createdAt (l m r : Signal) :
    (Signal.flush l m r).createdAt = r.createdAt := rfl

/-- Flushing keeps a column that has not been changed. -/
theorem Signal.flush_actionExecutedAt {l m r : Signal}
    (h : m.actionExecutedAt = l.actionExecutedAt) :
    (Signal.flush l m r).actionExecutedAt = r.actionExecutedAt :=
  if_pos h

/-- A verdict that has been flushed stands in the row. -/
theorem Signal.flush_isProcessed {l v row : Signal} (hl : l.isProcessed = false)
    (hv : v.isProcessed = true) : (Signal.flush l v row).isProcessed = true := by
  show (if v.isProcessed = l.isProcessed then row.isProcessed else v.isProcessed) = true
  rw [hv, hl]
  rfl

/-- A verdict on a signal: what an analysis may commit. -/
structure Verdict (loaded verdict : Signal) : Prop where
  processed : verdict.isProcessed = true
  action : verdict.actionTaken.isSome = true
  id : verdict.id = loaded.id
  actionExecutedAt : verdict.actionExecutedAt = loaded.actionExecutedAt

theorem Signal.verdict_skip (s : Signal) : Verdict s s.skip := ⟨rfl, rfl, rfl, rfl⟩

theorem Signal.verdict_dismiss (s : Signal) (c : Classification) : Verdict s (s.dismiss c) :=
  ⟨rfl, rfl, rfl, rfl⟩

theorem Signal.verdict_conclude (s : Signal) (t : SignalType) (r : ScoreResult) :
    Verdict s (s.conclude t r) :=
  ⟨rfl, rfl, rfl, rfl⟩

/-- An analysis under way: the signal was unprocessed when it was loaded, and what is about
to be committed is a verdict. -/
structure Analysis.Valid (a : Analysis) : Prop where
  unprocessed : a.signal.isProcessed = false
  verdict : ∀ l v, a = .committing l v → Verdict l v

namespace Analysis

/-- What `load` starts is the analysis of the row it has read. -/
theorem load_running {signals : List Signal} {signalId : ℕ} {a : Analysis}
    (h : load signals signalId = .running a) :
    Table.get Signal.id signals signalId = some a.signal ∧ a.Valid := by
  unfold load at h
  split at h
  · cases h
  · rename_i s hs
    split at h
    · cases h
    · rename_i hp
      have hp : s.isProcessed = false := by simpa using hp
      split at h
      · cases h
        refine ⟨hs, hp, fun l v hlv => ?_⟩
        cases hlv
        exact s.verdict_skip
      · cases h
        exact ⟨hs, hp, fun l v hlv => by cases hlv⟩

/-- `load` returns only for a signal that is processed or gone. -/
theorem load_returned {signals : List Signal} {signalId : ℕ} {b : Bool}
    (h : load signals signalId = .returned b) :
    (Table.get Signal.id signals signalId).all (·.isProcessed) = true := by
  unfold load at h
  split at h
  · rename_i hs
    rw [hs]
    rfl
  · rename_i s hs
    split at h
    · rename_i hp
      rw [hs]
      exact hp
    · split at h
      · cases h
      · cases h

theorem check_running {signals : List Signal} {llm : Bool} {s : Signal} {a : Analysis}
    (h : check signals llm s = .running a) :
    a.signal = s ∧ (s.isProcessed = false → a.Valid) := by
  unfold check at h
  split at h
  · cases h
    refine ⟨rfl, fun hs => ⟨hs, fun l v hlv => ?_⟩⟩
    cases hlv
    exact s.verdict_skip
  · split at h
    · cases h
      exact ⟨rfl, fun hs => ⟨hs, fun l v hlv => by cases hlv⟩⟩
    · cases h

theorem classify_running {s : Signal} {answer : Except String Classification} {a : Analysis}
    (h : classify s answer = .running a) :
    a.signal = s ∧ (s.isProcessed = false → a.Valid) := by
  unfold classify at h
  split at h
  · cases h
  · split at h
    · cases h
      refine ⟨rfl, fun hs => ⟨hs, fun l v hlv => ?_⟩⟩
      cases hlv
      exact s.verdict_dismiss _
    · cases h
      exact ⟨rfl, fun hs => ⟨hs, fun l v hlv => by cases hlv⟩⟩

theorem score_running {s : Signal} {t : SignalType} {answer : Except String ScoreResult}
    {a : Analysis} (h : score s t answer = .running a) :
    a.signal = s ∧ (s.isProcessed = false → a.Valid) := by
  unfold score at h
  split at h
  · cases h
  · cases h
    refine ⟨rfl, fun hs => ⟨hs, fun l v hlv => ?_⟩⟩
    cases hlv
    exact s.verdict_conclude _ _

/-- With a client, only loading can return without a verdict. -/
theorem check_ne_returned {signals : List Signal} {s : Signal} {b : Bool} :
    check signals true s ≠ .returned b := by
  unfold check
  intro h
  split at h <;> cases h

theorem classify_ne_returned {s : Signal} {answer : Except String Classification} {b : Bool} :
    classify s answer ≠ .returned b := by
  unfold classify
  intro h
  split at h
  · cases h
  · split at h <;> cases h

theorem score_ne_returned {s : Signal} {t : SignalType} {answer : Except String ScoreResult}
    {b : Bool} : score s t answer ≠ .returned b := by
  unfold score
  intro h
  split at h <;> cases h

end Analysis
end LeadPulse
