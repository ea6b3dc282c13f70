import LeadPulse.Lib.Run
import LeadPulse.Signals.Analysis

/-!
# The signal queue

A run of `process_signal_queue` (`tasks/llm.py`): `_process_queue` takes the list of the
pending signals, `IntelligenceService.process_queue` takes it once more and analyses the
signals one by one, and the task dispatches the actions of the first so many signals of the
*first* list, as many as `process_queue` says it has processed. An exception in an analysis ends
the loop; one outside of it, such as that of the budget query before each signal, ends the task, and
nothing is dispatched.

Between any two steps of the run other workers may add, delete and process signals. Ids come
from a sequence of the database and are not used again.
-/

namespace LeadPulse

/-- Where the run is. `pendingIds` is the list of `_process_queue`, `signalIds` that of
`process_queue`, and `processed` the count of the latter. -/
inductive QueuePhase where
  | start
  | listed (pendingIds : List ℕ)
  /-- In the loop, before the budget check of the next signal. -/
  | looping (pendingIds signalIds : List ℕ) (processed : ℕ)
  | analysing (pendingIds signalIds : List ℕ) (processed : ℕ) (a : Analysis)
  /-- `process_queue` has returned. -/
  | returned (pendingIds signalIds : List ℕ) (processed : ℕ)
  | done (processedIds : List ℕ)
  /-- An exception has left the task. -/
  | raised
deriving DecidableEq, Repr

structure QueueWorld where
  now : Time
  nextId : ℕ
  signals : List Signal
  phase : QueuePhase
  /-- The signals that this run has marked processed. -/
  marked : List ℕ
deriving DecidableEq, Repr

inductive QueueEvent where
  | tick (d : Time)
  /-- What other workers do. -/
  | addSignal (companyId : ℕ) (signalType : SignalType) (rawContentHash rawMarkdown : Option String)
  | deleteSignal (signalId : ℕ)
  | otherVerdict (loaded verdict : Signal)
  /-- The two queries, with the order in which the database returns the ids. -/
  | listPending (order : List ℕ)
  | listSignals (order : List ℕ)
  /-- The next signal: its budget check, and the load of its analysis. -/
  | next (budgetExceeded : Bool)
  | check
  | classify (answer : Except String Classification)
  | score (answer : Except String ScoreResult)
  | conclude
  /-- An exception in `analyze`: of a query or of the construction of the client. -/
  | raise
  /-- An exception that nothing catches: of the queries for the two lists, of the budget query,
  or of closing the session or the service. -/
  | raiseOutside
  | finish
deriving DecidableEq, Repr

/-- A result of `_pending_signal_ids`: the unprocessed signals, oldest first; signals of the
same time come in any order. -/
def IsPendingList (signals : List Signal) (order : List ℕ) : Prop :=
  order.Perm ((signals.filter fun s => ! s.isProcessed).map (·.id)) ∧
    (order.filterMap (Table.get Signal.id signals)).Pairwise fun s t => s.createdAt ≤ t.createdAt

instance (signals : List Signal) (order : List ℕ) : Decidable (IsPendingList signals order) :=
  inferInstanceAs (Decidable (_ ∧ _))

namespace QueueWorld

def init (t : Time) : QueueWorld where
  now := t
  nextId := 0
  signals := []
  phase := .start
  marked := []

/-- The analysis goes on; when it has returned, whatever it returned, the signal counts as
processed, and an exception ends the loop. -/
def proceed (w : QueueWorld) (pendingIds signalIds : List ℕ) (processed : ℕ) : Outcome → QueueWorld
  | .running a => { w with phase := .analysing pendingIds signalIds processed a }
  | .returned _ => { w with phase := .looping pendingIds signalIds (processed + 1) }
  | .raised => { w with phase := .returned pendingIds signalIds processed }

/-- The commit of a verdict fails if the row is gone. -/
def commit (w : QueueWorld) (pendingIds signalIds : List ℕ) (processed : ℕ)
    (loaded verdict : Signal) : QueueWorld :=
  if (Table.get Signal.id w.signals loaded.id).isSome then
    { w with
      signals := Table.modify Signal.id w.signals loaded.id (Signal.flush loaded verdict)
      marked := w.marked ++ [loaded.id]
      phase := .looping pendingIds signalIds (processed + 1) }
  else { w with phase := .returned pendingIds signalIds processed }

/-- One turn of the loop. The client is made by the first analysis; until then the budget is
never exceeded. -/
def turn (w : QueueWorld) (pendingIds signalIds : List ℕ) (processed : ℕ)
    (budgetExceeded : Bool) : Option QueueWorld :=
  match signalIds[processed]? with
  | none => some { w with phase := .returned pendingIds signalIds processed }
  | some signalId =>
    -- a signal that the budget keeps waiting is not counted
    if budgetExceeded then
      if processed = 0 then none
      else some { w with phase := .returned pendingIds signalIds processed }
    else some (w.proceed pendingIds signalIds processed (Analysis.load w.signals signalId))

/-- The stages of an analysis. The client is there, so stage 1 is reached. -/
def answer (w : QueueWorld) (pendingIds signalIds : List ℕ) (processed : ℕ) :
    Analysis → QueueEvent → Option QueueWorld
  | .checking s, .check =>
    some (w.proceed pendingIds signalIds processed (Analysis.check w.signals true s))
  | .classifying s, .classify answer =>
    some (w.proceed pendingIds signalIds processed (Analysis.classify s answer))
  | .scoring s signalType, .score answer =>
    some (w.proceed pendingIds signalIds processed (Analysis.score s signalType answer))
  | .committing loaded verdict, .conclude =>
    some (w.commit pendingIds signalIds processed loaded verdict)
  | _, .raise => some { w with phase := .returned pendingIds signalIds processed }
  | _, _ => none

/-- An exception leaves the task. Until the first analysis has made a client, the loop does not
query the budget. -/
def leave (w : QueueWorld) : QueuePhase → Option QueueWorld
  | .start | .listed _ | .returned _ _ _ => some { w with phase := .raised }
  | .looping _ _ processed => if processed = 0 then none else some { w with phase := .raised }
  | .analysing _ _ _ _ | .done _ | .raised => none

/-- What other workers do. -/
def others (w : QueueWorld) : QueueEvent → Option QueueWorld
  | .tick d => if 0 ≤ d then some { w with now := w.now + d } else none
  | .addSignal companyId signalType rawContentHash rawMarkdown =>
    some { w with
      nextId := w.nextId + 1
      signals := w.signals ++ [{
        id := w.nextId, companyId := companyId, signalType := signalType,
        rawContentHash := rawContentHash, rawMarkdown := rawMarkdown, createdAt := w.now }] }
  | .deleteSignal signalId => some { w with signals := Table.remove Signal.id w.signals signalId }
  | .otherVerdict loaded verdict =>
    if loaded.isProcessed = false ∧ verdict.isProcessed = true then
      some { w with
        signals := Table.modify Signal.id w.signals loaded.id (Signal.flush loaded verdict) }
    else none
  | _ => none

/-- What the run does. -/
def run (w : QueueWorld) : QueuePhase → QueueEvent → Option QueueWorld
  | .start, .listPending order =>
    if IsPendingList w.signals order then some { w with phase := .listed order } else none
  | .listed pendingIds, .listSignals order =>
    if IsPendingList w.signals order then
      some { w with phase := .looping pendingIds order 0 } else none
  | .looping pendingIds signalIds processed, .next budgetExceeded =>
    w.turn pendingIds signalIds processed budgetExceeded
  | .looping pendingIds signalIds processed, .raise =>
    some { w with phase := .returned pendingIds signalIds processed }
  | phase, .raiseOutside => w.leave phase
  | .analysing pendingIds signalIds processed a, ev =>
    w.answer pendingIds signalIds processed a ev
  | .returned pendingIds _ processed, .finish =>
    some { w with phase := .done (pendingIds.take processed) }
  | _, _ => none

def step (w : QueueWorld) (ev : QueueEvent) : Option QueueWorld :=
  (w.others ev).or (w.run w.phase ev)

theorem run_raiseOutside (w : QueueWorld) (phase : QueuePhase) :
    w.run phase .raiseOutside = w.leave phase := by
  cases phase <;> rfl

theorem leave_some {w w' : QueueWorld} {phase : QueuePhase} (hs : w.leave phase = some w') :
    w' = { w with phase := .raised } := by
  unfold leave at hs
  split at hs
  · exact (Option.some.inj hs).symm
  · exact (Option.some.inj hs).symm
  · exact (Option.some.inj hs).symm
  · split at hs
    · cases hs
    · exact (Option.some.inj hs).symm
  · cases hs
  · cases hs
  · cases hs

end QueueWorld
end LeadPulse
