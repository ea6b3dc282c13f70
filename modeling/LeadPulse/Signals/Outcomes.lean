import LeadPulse.Signals.Analysis

/-!
# What an analysis leaves in the table

`IntelligenceService.analyze` and the loop of `process_queue` (`services/intelligence.py`) with
their session, when no other worker is at the table. The attributes of a loaded signal are set as
the stages go by; what the session sees then differs from what is stored until the commit, and what
is not committed is gone when the session is closed.

`analyze_outcome`: a signal is stored with the action that its type and its score ask for, or it is
stored as it was. `analyze_follows`: `analyze` is the machine of `Signals/Analysis.lean` run without
interruption.
-/

namespace LeadPulse

/-! ## The session -/

/-- The table of the signals in a session: as it is stored, and with the changes that the session
has not committed. -/
structure SignalSession where
  stored : List Signal
  current : List Signal
deriving DecidableEq, Repr

namespace SignalSession

/-- A new session. -/
def opened (signals : List Signal) : SignalSession := ⟨signals, signals⟩

/-- The attributes of a loaded signal are set. -/
def set (session : SignalSession) (signal : Signal) : SignalSession :=
  { session with
    current := Table.modify Signal.id session.current signal.id fun _ => signal }

def commit (session : SignalSession) : SignalSession := { session with stored := session.current }

/-- The end of `async with`: the transaction is rolled back. -/
def close (session : SignalSession) : SignalSession := { session with current := session.stored }

/-- Nothing is left to be committed. -/
def Clean (session : SignalSession) : Prop := session.current = session.stored

end SignalSession

/-! ## `analyze` -/

/-- What is answered to an analysis: by `create_llm_client`, which may find no key, and by the two
stages, the second of which is told the type in the words of the first. -/
structure Client where
  create : Except String Bool
  classifySignal : Signal → Except String Classification
  scoreAndRecommend : Signal → String → Except String ScoreResult

/-- How a call of `analyze` ends: `return True` after a commit, a `return` without one, or an
exception. -/
inductive AnalyzeEnd where
  | committed
  | returned (b : Bool)
  | raised (error : String)
deriving DecidableEq, Repr

/-- `IntelligenceService.analyze`. -/
def analyze (client : Client) (signalId : ℕ) (session : SignalSession) :
    AnalyzeEnd × SignalSession :=
  match client.create with
  | .error e => (.raised e, session)
  | .ok llm =>
    match Table.get Signal.id session.current signalId with
    | none => (.returned false, session)
    | some signal =>
      if signal.isProcessed then (.returned true, session)
      else if (preFilter (signal.rawMarkdown.getD "")).isSome then
        (.committed, (session.set signal.skip).commit)
      else if hashAlreadyProcessed session.current signal then
        (.committed, (session.set signal.skip).commit)
      else if llm then
        match client.classifySignal signal with
        | .error e => (.raised e, session)
        | .ok c =>
          let signalType := (SignalType.ofValue? c.signalType).getD .other
          -- the type is set before stage 2 is asked
          let session := session.set { signal with signalType := signalType }
          if signalType = .noSignal then (.committed, (session.set (signal.dismiss c)).commit)
          else
            match client.scoreAndRecommend signal c.signalType with
            | .error e => (.raised e, session)
            | .ok r => (.committed, (session.set (signal.conclude signalType r)).commit)
      else (.returned false, session)

/-! ## `process_queue` -/

/-- How the loop ends: after the last signal, over the budget, or with an exception, which both
handlers log before they leave the loop. -/
inductive LoopEnd where
  | finished
  | overBudget
  | failed (signalId : ℕ)
deriving DecidableEq, Repr

/-- The loop of `process_queue`, with the budget checks by the number of signals processed. -/
def processLoop (client : Client) (budgetExceeded : ℕ → Bool) :
    List ℕ → ℕ → SignalSession → LoopEnd × SignalSession
  | [], _, session => (.finished, session)
  | signalId :: signalIds, processed, session =>
    if budgetExceeded processed then (.overBudget, session)
    else
      match analyze client signalId session with
      | (.raised _, session) => (.failed signalId, session)
      | (_, session) => processLoop client budgetExceeded signalIds (processed + 1) session

/-- `process_queue` in its session, for the signals that `_pending_signal_ids` lists: the signals
that are stored in the end. -/
def processQueue (client : Client) (exceededAtStart : Bool) (budgetExceeded : ℕ → Bool)
    (signalIds : List ℕ) (signals : List Signal) : List Signal :=
  let session := SignalSession.opened signals
  if exceededAtStart then session.close.stored
  else (processLoop client budgetExceeded signalIds 0 session).2.close.stored

/-! ## What an action has to be -/

/-- The bands of the scores. -/
def scoreBand (score : ℤ) : SignalAction :=
  if 75 ≤ score then .notifyImmediate
  else if 50 ≤ score then .notifyDigest
  else if 25 ≤ score then .enrichFurther
  else .ignore

/-- A processed signal with the action for its type and score. -/
structure Signal.Concluded (s : Signal) : Prop where
  isProcessed : s.isProcessed = true
  noSignal : s.signalType = .noSignal → s.actionTaken = some .ignore
  scored : s.signalType ≠ .noSignal →
    ∃ score, s.relevanceScore = some score ∧ s.actionTaken = some (scoreBand score)

theorem scoreToAction_eq (score : ℤ) : scoreToAction score = scoreBand score := by
  unfold scoreToAction scoreBand actionThresholds
  by_cases h75 : 75 ≤ score
  · simp [h75]
  · by_cases h50 : 50 ≤ score
    · simp [h75, h50]
    · by_cases h25 : 25 ≤ score
      · simp [h75, h50, h25]
      · -- the last threshold and the fallback agree
        by_cases h0 : 0 ≤ score
        · simp [h75, h50, h25, h0]
        · simp [h75, h50, h25, h0]

namespace Signal

theorem concluded_skip (s : Signal) : s.skip.Concluded where
  isProcessed := rfl
  noSignal _ := rfl
  scored h := absurd rfl h

theorem concluded_dismiss (s : Signal) (c : Classification) : (s.dismiss c).Concluded where
  isProcessed := rfl
  noSignal _ := rfl
  scored h := absurd rfl h

theorem concluded_conclude (s : Signal) {t : SignalType} (ht : t ≠ .noSignal) (r : ScoreResult) :
    (s.conclude t r).Concluded where
  isProcessed := rfl
  noSignal h := absurd h ht
  scored _ := ⟨r.relevanceScore, rfl, congrArg some (scoreToAction_eq _)⟩

end Signal

/-! ## One call -/

namespace SignalSession

variable {session : SignalSession} {s t : Signal}

/-- Of two changes of a signal the second one counts. -/
theorem set_set (h : s.id = t.id) : (session.set s).set t = session.set t := by
  unfold set Table.modify
  simp only [List.map_map, SignalSession.mk.injEq, true_and]
  apply List.map_congr_left
  intro r _
  show (if (if r.id = s.id then s else r).id = t.id then t else if r.id = s.id then s else r) = _
  by_cases hr : r.id = s.id
  · rw [if_pos hr, if_pos h, if_pos (hr.trans h)]
  · rw [if_neg hr]

@[simp] theorem stored_set : (session.set s).stored = session.stored := rfl

@[simp] theorem stored_close : session.close.stored = session.stored := rfl

theorem clean_opened (signals : List Signal) : (opened signals).Clean := rfl

theorem clean_commit : session.commit.Clean := rfl

/-- The row of a loaded signal after its change. -/
theorem get_set (hs : (Table.get Signal.id session.current s.id).isSome) (j : ℕ) :
    Table.get Signal.id (session.set s).current j =
      if j = s.id then some s else Table.get Signal.id session.current j := by
  have hset : (session.set s).current =
      Table.modify Signal.id session.current s.id fun r => { s with id := r.id } := by
    apply List.map_congr_left
    intro r _
    by_cases hr : r.id = s.id
    · rw [if_pos hr, if_pos hr]
      show s = { s with id := r.id }
      rw [hr]
    · rw [if_neg hr, if_neg hr]
  have hkeep : ∀ r : Signal, Signal.id { s with id := r.id } = Signal.id r := fun _ => rfl
  rw [hset, Table.get_modify hkeep]
  by_cases hj : j = s.id
  · subst hj
    obtain ⟨r, hr⟩ := Option.isSome_iff_exists.mp hs
    have hid : r.id = s.id := Table.key_of_get hr
    rw [if_pos rfl, if_pos rfl, hr, Option.map_some, hid]
  · rw [if_neg hj, if_neg hj]

end SignalSession

section

variable {client : Client} {session session' : SignalSession} {signalId : ℕ} {result : AnalyzeEnd}

/-- The part of `analyze` that asks the model about a loaded signal. -/
def askModel (client : Client) (signal : Signal) (session : SignalSession) :
    AnalyzeEnd × SignalSession :=
  match client.classifySignal signal with
  | .error e => (.raised e, session)
  | .ok c =>
    let signalType := (SignalType.ofValue? c.signalType).getD .other
    let session := session.set { signal with signalType := signalType }
    if signalType = .noSignal then (.committed, (session.set (signal.dismiss c)).commit)
    else
      match client.scoreAndRecommend signal c.signalType with
      | .error e => (.raised e, session)
      | .ok r => (.committed, (session.set (signal.conclude signalType r)).commit)

/-- The model's verdict is committed, or an exception leaves the type of the signal in the
session. -/
theorem askModel_cases {loaded : Signal}
    (h : askModel client loaded session = (result, session')) :
    (result = .committed ∧ ∃ verdict : Signal, verdict.Concluded ∧ Verdict loaded verdict ∧
      session' = (session.set verdict).commit) ∨
    (∃ e, result = .raised e ∧ session'.stored = session.stored) := by
  unfold askModel at h
  split at h
  · obtain ⟨rfl, rfl⟩ := Prod.mk.inj h
    exact Or.inr ⟨_, rfl, rfl⟩
  · rename_i c _
    dsimp only at h
    split at h
    · obtain ⟨rfl, rfl⟩ := Prod.mk.inj h
      refine Or.inl ⟨rfl, loaded.dismiss c, loaded.concluded_dismiss c,
        loaded.verdict_dismiss c, ?_⟩
      exact congrArg SignalSession.commit (SignalSession.set_set rfl)
    · rename_i htype
      split at h
      · -- the type is in the session, but not stored
        obtain ⟨rfl, rfl⟩ := Prod.mk.inj h
        exact Or.inr ⟨_, rfl, rfl⟩
      · rename_i r _
        obtain ⟨rfl, rfl⟩ := Prod.mk.inj h
        refine Or.inl ⟨rfl, loaded.conclude _ r, loaded.concluded_conclude htype r,
          loaded.verdict_conclude _ r, ?_⟩
        exact congrArg SignalSession.commit (SignalSession.set_set rfl)

/-- What `analyze` does: it commits one concluded signal, or it stores nothing, and then only an
exception can leave changes in the session. -/
theorem analyze_cases (h : analyze client signalId session = (result, session')) :
    (result = .committed ∧ ∃ loaded verdict,
      Table.get Signal.id session.current signalId = some loaded ∧ loaded.isProcessed = false ∧
      verdict.Concluded ∧ Verdict loaded verdict ∧ session' = (session.set verdict).commit) ∨
    (∃ b, result = .returned b ∧ session' = session) ∨
    (∃ e, result = .raised e ∧ session'.stored = session.stored) := by
  unfold analyze at h
  split at h
  · obtain ⟨rfl, rfl⟩ := Prod.mk.inj h
    exact Or.inr (Or.inr ⟨_, rfl, rfl⟩)
  · rename_i llm _
    split at h
    · obtain ⟨rfl, rfl⟩ := Prod.mk.inj h
      exact Or.inr (Or.inl ⟨_, rfl, rfl⟩)
    · rename_i loaded hloaded
      by_cases hprocessed : loaded.isProcessed = true
      · rw [if_pos hprocessed] at h
        obtain ⟨rfl, rfl⟩ := Prod.mk.inj h
        exact Or.inr (Or.inl ⟨_, rfl, rfl⟩)
      · have hfalse : loaded.isProcessed = false := by simpa using hprocessed
        rw [if_neg hprocessed] at h
        split at h
        · obtain ⟨rfl, rfl⟩ := Prod.mk.inj h
          exact Or.inl ⟨rfl, loaded, loaded.skip, hloaded, hfalse, loaded.concluded_skip,
            loaded.verdict_skip, rfl⟩
        · split at h
          · obtain ⟨rfl, rfl⟩ := Prod.mk.inj h
            exact Or.inl ⟨rfl, loaded, loaded.skip, hloaded, hfalse, loaded.concluded_skip,
              loaded.verdict_skip, rfl⟩
          · split at h
            · -- what is left is the part that asks the model
              rcases askModel_cases h with ⟨rfl, v, hv, hverdict, hs⟩ | hraised
              · exact Or.inl ⟨rfl, loaded, v, hloaded, hfalse, hv, hverdict, hs⟩
              · exact Or.inr (Or.inr hraised)
            · obtain ⟨rfl, rfl⟩ := Prod.mk.inj h
              exact Or.inr (Or.inl ⟨_, rfl, rfl⟩)

/-- A call that raises nothing leaves nothing uncommitted. -/
theorem analyze_clean (h : analyze client signalId session = (result, session'))
    (hclean : session.Clean) (hresult : ∀ e, result ≠ .raised e) : session'.Clean := by
  rcases analyze_cases h with ⟨-, loaded, verdict, -, -, -, -, rfl⟩ | ⟨b, -, rfl⟩ | ⟨e, he, -⟩
  · exact SignalSession.clean_commit
  · exact hclean
  · exact absurd he (hresult e)

/-- After a commit the signal is concluded, and the others are as before. -/
theorem analyze_committed (h : analyze client signalId session = (.committed, session'))
    (hclean : session.Clean) :
    (∃ row, Table.get Signal.id session'.stored signalId = some row ∧ row.Concluded) ∧
      ∀ j ≠ signalId,
        Table.get Signal.id session'.stored j = Table.get Signal.id session.stored j := by
  rcases analyze_cases h with ⟨-, loaded, v, hget, -, hv, hverdict, rfl⟩ | ⟨b, hb, -⟩ | ⟨e, he, -⟩
  · have hid : v.id = signalId := hverdict.id.trans (Table.key_of_get hget)
    have hsome : (Table.get Signal.id session.current v.id).isSome := by
      rw [hid, hget]
      rfl
    have hrow : ∀ j, Table.get Signal.id ((session.set v).commit).stored j =
        if j = signalId then some v else Table.get Signal.id session.current j := by
      intro j
      rw [← hid]
      exact SignalSession.get_set hsome j
    constructor
    · exact ⟨v, (hrow signalId).trans (if_pos rfl), hv⟩
    · intro j hj
      rw [hrow, if_neg hj, hclean]
  · cases hb
  · cases he

/-- A signal that is processed already is not touched. -/
theorem analyze_processed (h : analyze client signalId session = (result, session'))
    (hclean : session.Clean)
    (hprocessed : ∃ row, Table.get Signal.id session.stored signalId = some row ∧ row.isProcessed) :
    session'.stored = session.stored := by
  rcases analyze_cases h with ⟨-, loaded, v, hget, hfalse, -⟩ | ⟨b, -, rfl⟩ | ⟨e, -, he⟩
  · obtain ⟨row, hrow, htrue⟩ := hprocessed
    rw [hclean, hrow] at hget
    obtain rfl := Option.some.inj hget
    rw [hfalse] at htrue
    cases htrue
  · rfl
  · exact he

theorem analyze_raised {e : String} (h : analyze client signalId session = (.raised e, session')) :
    session'.stored = session.stored := by
  rcases analyze_cases h with ⟨hend, -⟩ | ⟨b, hb, -⟩ | ⟨e', -, he⟩
  · cases hend
  · cases hb
  · exact he

end

/-! ## The loop -/

section

variable {client : Client} {budgetExceeded : ℕ → Bool} {session session' : SignalSession}

/-- The loop over a list that begins with signals it gets through. -/
theorem processLoop_append {before : List ℕ} {processed : ℕ} (rest : List ℕ)
    (h : processLoop client budgetExceeded before processed session = (.finished, session')) :
    processLoop client budgetExceeded (before ++ rest) processed session =
      processLoop client budgetExceeded rest (processed + before.length) session' := by
  induction before generalizing processed session with
  | nil =>
    obtain ⟨-, rfl⟩ := Prod.mk.inj h
    rfl
  | cons signalId before ih =>
    rw [List.cons_append, processLoop]
    unfold processLoop at h
    split at h
    · cases h
    · rename_i hbudget
      rw [if_neg hbudget]
      split at h
      · cases h
      · rename_i result session₁ hraised heq
        rw [ih h, List.length_cons, Nat.add_assoc, Nat.add_comm 1]

/-- Each call finds a session without changes. -/
theorem processLoop_clean {before : List ℕ} {processed : ℕ}
    (h : processLoop client budgetExceeded before processed session = (.finished, session'))
    (hclean : session.Clean) : session'.Clean := by
  induction before generalizing processed session with
  | nil =>
    obtain ⟨-, rfl⟩ := Prod.mk.inj h
    exact hclean
  | cons signalId before ih =>
    unfold processLoop at h
    split at h
    · cases h
    · split at h
      · cases h
      · rename_i result session₁ hraised heq
        exact ih h (analyze_clean heq hclean hraised)

/-- An exception ends the queue, and what is stored is what the call has found. -/
theorem processQueue_raised {signals : List Signal} {before : List ℕ} {signalId : ℕ} {e : String}
    (after : List ℕ)
    (h : processLoop client budgetExceeded before 0 (SignalSession.opened signals) =
      (.finished, session))
    (hraised : analyze client signalId session = (.raised e, session')) :
    processQueue client false budgetExceeded (before ++ signalId :: after) signals =
      session.stored := by
  show (processLoop client budgetExceeded (before ++ signalId :: after) 0 _).2.close.stored = _
  rw [processLoop_append (signalId :: after) h, SignalSession.stored_close, processLoop]
  split
  · rfl
  · rw [hraised]
    exact analyze_raised hraised

end

/-- Wherever in a queue a signal is analysed, after a commit it is concluded; if it was processed
before, nothing is stored; and if the model raises, the signals are stored as the call has found
them, also when the queue is through. -/
theorem analyze_outcome (client : Client) (budgetExceeded : ℕ → Bool) (signals : List Signal)
    (before after : List ℕ) (signalId : ℕ) (session session' : SignalSession) (result : AnalyzeEnd)
    (hbefore : processLoop client budgetExceeded before 0 (SignalSession.opened signals) =
      (.finished, session))
    (hresult : analyze client signalId session = (result, session')) :
    (result = .committed →
      ∃ row, Table.get Signal.id session'.stored signalId = some row ∧ row.Concluded) ∧
    ((∃ row, Table.get Signal.id session.stored signalId = some row ∧ row.isProcessed) →
      session'.stored = session.stored) ∧
    ∀ e, result = .raised e → session'.stored = session.stored ∧
      processQueue client false budgetExceeded (before ++ signalId :: after) signals =
        session.stored := by
  have hclean := processLoop_clean hbefore (SignalSession.clean_opened signals)
  refine ⟨?_, analyze_processed hresult hclean, ?_⟩
  · rintro rfl
    exact (analyze_committed hresult hclean).1
  · rintro e rfl
    exact ⟨analyze_raised hresult, processQueue_raised after hbefore hresult⟩

/-- Two signals with enough text. -/
def pendingSignals : List Signal :=
  [1, 2].map fun id =>
    { id := id
      companyId := 7
      signalType := .other
      rawMarkdown := some "Acme opens a second office and looks for forty engineers."
      createdAt := 0 }

/-- A model that scores the first signal and fails in stage 2 of the second. -/
def failingClient : Client where
  create := .ok true
  classifySignal _ := .ok ⟨"expansion", ""⟩
  scoreAndRecommend signal _ := if signal.id = 1 then .ok ⟨60, ""⟩ else .error "timeout"

/-- The type of the second signal is set when the model fails, and is not stored. -/
theorem analyze_outcome_failing :
    ∃ session session',
      processLoop failingClient (fun _ => false) [1] 0 (SignalSession.opened pendingSignals) =
        (.finished, session) ∧
      analyze failingClient 2 session = (.raised "timeout", session') ∧
      session'.current ≠ session.stored ∧ session'.stored = session.stored ∧
      processQueue failingClient false (fun _ => false) [1, 2] pendingSignals = session.stored ∧
      session.stored ≠ pendingSignals := by
  refine ⟨_, _, rfl, rfl, by decide +kernel, ?_, ?_, by decide +kernel⟩
  · exact ((analyze_outcome failingClient (fun _ => false) pendingSignals [1] [] 2 _ _ _ rfl
      rfl).2.2 _ rfl).1
  · exact ((analyze_outcome failingClient (fun _ => false) pendingSignals [1] [] 2 _ _ _ rfl
      rfl).2.2 _ rfl).2

/-! ## The machine without interruption -/

/-- The step of an analysis that is not interrupted. -/
def Analysis.next (client : Client) (llm : Bool) (signals : List Signal) : Outcome → Outcome
  | .running (.checking s) => Analysis.check signals llm s
  | .running (.classifying s) => Analysis.classify s (client.classifySignal s)
  | .running (.scoring s t) =>
    -- stage 2 is told the type as stage 1 has answered it
    Analysis.score s t ((client.classifySignal s).bind fun c =>
      client.scoreAndRecommend s c.signalType)
  | o => o

/-- Loading and the three steps after it. -/
def Analysis.runAll (client : Client) (llm : Bool) (signals : List Signal) (signalId : ℕ) :
    Outcome :=
  let next := Analysis.next client llm signals
  next (next (next (Analysis.load signals signalId)))

theorem Analysis.classify_ok (s : Signal) (c : Classification) :
    Analysis.classify s (.ok c) =
      if (SignalType.ofValue? c.signalType).getD .other = .noSignal then
        .running (.committing s (s.dismiss c))
      else .running (.scoring s ((SignalType.ofValue? c.signalType).getD .other)) := by
  unfold Analysis.classify
  dsimp only
  generalize (SignalType.ofValue? c.signalType).getD .other = t
  cases t <;> rfl

/-- A call of `analyze` ends as the machine does. -/
def AnalyzeEnd.Follows (result : AnalyzeEnd) (session session' : SignalSession) : Outcome → Prop
  | .running (.committing _ verdict) =>
    result = .committed ∧ session' = (session.set verdict).commit
  | .running _ => False
  | .returned b => result = .returned b ∧ session' = session
  | .raised => ∃ e, result = .raised e

theorem askModel_follows {client : Client} {llm : Bool} {signals : List Signal} {signal : Signal}
    {session session' : SignalSession} {result : AnalyzeEnd}
    (h : askModel client signal session = (result, session')) :
    result.Follows session session' (Analysis.next client llm signals
      (Analysis.next client llm signals (.running (.classifying signal)))) := by
  unfold askModel at h
  cases hc : client.classifySignal signal with
  | error e =>
    rw [hc] at h
    obtain ⟨rfl, rfl⟩ := Prod.mk.inj h
    simp only [Analysis.next, hc, Analysis.classify]
    exact ⟨e, rfl⟩
  | ok c =>
    rw [hc] at h
    simp only [Analysis.next, hc, Analysis.classify_ok]
    dsimp only at h
    split at h
    · rename_i htype
      obtain ⟨rfl, rfl⟩ := Prod.mk.inj h
      rw [if_pos htype]
      -- the code sets the type first and the verdict on top of it
      exact ⟨rfl, congrArg SignalSession.commit (SignalSession.set_set rfl)⟩
    · rename_i htype
      rw [if_neg htype]
      simp only [hc, Except.bind]
      cases hr : client.scoreAndRecommend signal c.signalType with
      | error e =>
        rw [hr] at h
        obtain ⟨rfl, rfl⟩ := Prod.mk.inj h
        exact ⟨e, rfl⟩
      | ok r =>
        rw [hr] at h
        obtain ⟨rfl, rfl⟩ := Prod.mk.inj h
        exact ⟨rfl, congrArg SignalSession.commit (SignalSession.set_set rfl)⟩

theorem analyze_follows {client : Client} {llm : Bool} {signalId : ℕ}
    {session session' : SignalSession} {result : AnalyzeEnd} (hcreate : client.create = .ok llm)
    (h : analyze client signalId session = (result, session')) :
    result.Follows session session' (Analysis.runAll client llm session.current signalId) := by
  unfold analyze at h
  rw [hcreate] at h
  unfold Analysis.runAll Analysis.load
  cases hget : Table.get Signal.id session.current signalId with
  | none =>
    rw [hget] at h
    obtain ⟨rfl, rfl⟩ := Prod.mk.inj h
    exact ⟨rfl, rfl⟩
  | some signal =>
    rw [hget] at h
    dsimp only at h ⊢
    split at h
    · rename_i hprocessed
      obtain ⟨rfl, rfl⟩ := Prod.mk.inj h
      rw [if_pos hprocessed]
      exact ⟨rfl, rfl⟩
    · rename_i hprocessed
      rw [if_neg hprocessed]
      split at h
      · rename_i hshort
        obtain ⟨rfl, rfl⟩ := Prod.mk.inj h
        rw [if_pos hshort]
        exact ⟨rfl, rfl⟩
      · rename_i hshort
        rw [if_neg hshort]
        -- the first step of the machine looks for the content
        have hcheck : Analysis.next client llm session.current (.running (.checking signal)) =
            Analysis.check session.current llm signal := rfl
        rw [hcheck, Analysis.check]
        split at h
        · rename_i hhash
          obtain ⟨rfl, rfl⟩ := Prod.mk.inj h
          rw [if_pos hhash]
          exact ⟨rfl, rfl⟩
        · rename_i hhash
          rw [if_neg hhash]
          cases llm with
          | false =>
            obtain ⟨rfl, rfl⟩ := Prod.mk.inj h
            exact ⟨rfl, rfl⟩
          | true => exact askModel_follows h

end LeadPulse
