import LeadPulse.Pipeline.Sound

/-!
# A verdict is final

`analyze` looks at `is_processed` when it loads the signal and writes its verdict two calls
of the model later, without a lock. `secondVerdict_not_final` is a run in which two workers
analyse one signal: the action of the first verdict is executed, and the second verdict then
replaces it.

`verdictsFinal_of_unprocessed` says when verdicts are final: in every run in which a verdict
is only committed to a row that has none.
-/

namespace LeadPulse

/-- The row `row'` has the verdict of `row`. -/
structure SameVerdict (row row' : Signal) : Prop where
  isProcessed : row'.isProcessed = row.isProcessed
  signalType : row'.signalType = row.signalType
  relevanceScore : row'.relevanceScore = row.relevanceScore
  actionTaken : row'.actionTaken = row.actionTaken

/-- Every verdict of the first table is in the second one. -/
def VerdictsKept (signals signals' : List Signal) : Prop :=
  ∀ signalId row, Table.get Signal.id signals signalId = some row → row.isProcessed = true →
    ∃ row', Table.get Signal.id signals' signalId = some row' ∧ SameVerdict row row'

/-- The action of an executed signal is the one that was executed. -/
def ActionsRecorded (signals : List Signal) (executions : List (ℕ × SignalAction)) : Prop :=
  ∀ p ∈ executions, ∃ row, Table.get Signal.id signals p.1 = some row ∧
    row.isProcessed = true ∧ row.actionTaken = some p.2

/-- A verdict is committed only to a row that has none. -/
def concludesUnprocessed (w : World) : Event → Bool
  | .conclude i => (w.analyses i).all fun a => (w.signal a.signal.id).all (! ·.isProcessed)
  | _ => true

/-! ## One step -/

namespace VerdictsKept

variable {signals signals' signals'' : List Signal} {s : Signal} {k signalId : ℕ}

theorem refl (signals : List Signal) : VerdictsKept signals signals :=
  fun _ row hrow _ => ⟨row, hrow, rfl, rfl, rfl, rfl⟩

theorem trans (h : VerdictsKept signals signals') (h' : VerdictsKept signals' signals'') :
    VerdictsKept signals signals'' := by
  intro id row hrow hp
  obtain ⟨row', hrow', hsame⟩ := h id row hrow hp
  have hp' : row'.isProcessed = true := by rw [hsame.isProcessed, hp]
  obtain ⟨row'', hrow'', hsame'⟩ := h' id row' hrow' hp'
  refine ⟨row'', hrow'', ?_, ?_, ?_, ?_⟩
  · rw [hsame'.isProcessed, hsame.isProcessed]
  · rw [hsame'.signalType, hsame.signalType]
  · rw [hsame'.relevanceScore, hsame.relevanceScore]
  · rw [hsame'.actionTaken, hsame.actionTaken]

theorem append : VerdictsKept signals (signals ++ [s]) :=
  fun _ row hrow _ => ⟨row, Table.get_append_of_some hrow, rfl, rfl, rfl, rfl⟩

/-- An update that leaves the verdict of the row alone, if the row has one. -/
theorem modify {f : Signal → Signal} (hid : ∀ r, (f r).id = r.id)
    (hf : ∀ row, Table.get Signal.id signals k = some row → row.isProcessed = true →
      SameVerdict row (f row)) : VerdictsKept signals (Table.modify Signal.id signals k f) := by
  intro id row hrow hp
  rw [Table.get_modify hid]
  split
  · rename_i hk
    subst hk
    exact ⟨f row, by rw [hrow]; rfl, hf row hrow hp⟩
  · exact ⟨row, hrow, rfl, rfl, rfl, rfl⟩

theorem actionsRecorded (h : VerdictsKept signals signals')
    {executions : List (ℕ × SignalAction)} (hr : ActionsRecorded signals executions) :
    ActionsRecorded signals' executions := by
  intro p hp
  obtain ⟨row, hrow, hproc, hact⟩ := hr p hp
  obtain ⟨row', hrow', hsame⟩ := h p.1 row hrow hproc
  exact ⟨row', hrow', by rw [hsame.isProcessed, hproc], by rw [hsame.actionTaken, hact]⟩

end VerdictsKept

/-- The row of a signal that was loaded to be executed has the verdict it was loaded with. -/
def HasAction (signals : List Signal) (s : Signal) : Prop :=
  ∃ row, Table.get Signal.id signals s.id = some row ∧ row.isProcessed = true ∧
    row.actionTaken = s.actionTaken

/-- That of all executions in flight. -/
def Loaded (signals : List Signal) (dispatches : ℕ → Option Dispatch) : Prop :=
  Slots.All (fun _ d => HasAction signals d.signal) dispatches

theorem VerdictsKept.loaded {signals signals' : List Signal} {dispatches : ℕ → Option Dispatch}
    (h : VerdictsKept signals signals') (hl : Loaded signals dispatches) :
    Loaded signals' dispatches := by
  refine Slots.All.mono hl fun i d _ hd => ?_
  obtain ⟨row, hrow, hproc, hact⟩ := hd
  obtain ⟨row', hrow', hsame⟩ := h d.signal.id row hrow hproc
  exact ⟨row', hrow', by rw [hsame.isProcessed, hproc], by rw [hsame.actionTaken, hact]⟩

/-- An execution that goes on has the signal it was started with. -/
theorem Loaded.advance {signals : List Signal} {dispatches : ℕ → Option Dispatch} {i : ℕ}
    {d d' : Dispatch} (hl : Loaded signals dispatches) (hd : dispatches i = some d)
    (hs : d'.signal = d.signal) : Loaded signals (Function.update dispatches i (some d')) := by
  refine Slots.All.set hl ?_
  rw [hs]
  exact hl i d hd

namespace World

theorem verdictsKept_step {cfg : PipelineConfig} {w w' : World} {ev : Event}
    (hc : concludesUnprocessed w ev = true) (hs : step cfg w ev = some w') :
    VerdictsKept w.signals w'.signals := by
  cases step_move hs with
  | write hw =>
    have hq := hw.quiet
    rw [hq.signals]
    exact VerdictsKept.refl _
  | addSignal s hfresh hp ha he => exact VerdictsKept.append
  | verdict i l v hlv =>
    refine VerdictsKept.modify (Signal.flush_id l v) fun row hrow hp => ?_
    -- the row has no verdict
    simp only [concludesUnprocessed, hlv] at hc
    have hrow' : w.signal (Analysis.committing l v).signal.id = some row := hrow
    simp [hrow', hp] at hc
  | finish i e hd hmay => exact VerdictsKept.modify (fun _ => rfl) fun _ _ _ => ⟨rfl, rfl, rfl, rfl⟩
  | _ => exact VerdictsKept.refl _

/-- The invariant: what is executed, and what has been, is what the rows say. -/
theorem loaded_step {cfg : PipelineConfig} {w w' : World} {ev : Event}
    (hsound : Sound w.signals w.analyses w.dispatches)
    (hl : Loaded w.signals w.dispatches) (hr : ActionsRecorded w.signals w.executions)
    (hc : concludesUnprocessed w ev = true) (hs : step cfg w ev = some w') :
    Loaded w'.signals w'.dispatches ∧ ActionsRecorded w'.signals w'.executions := by
  have hkept := verdictsKept_step hc hs
  have hl' := hkept.loaded hl
  have hr' := hkept.actionsRecorded hr
  cases step_move hs with
  | write hw =>
    have hq := hw.quiet
    rw [hq.dispatches, hq.executions]
    exact ⟨hl', hr'⟩
  | addSignal s hfresh hp ha he => exact ⟨hl', hr'⟩
  | analysis i a ha => exact ⟨hl', hr'⟩
  | analysisEnds i => exact ⟨hl', hr'⟩
  | verdict i l v hlv => exact ⟨hl', hr'⟩
  | start i signalId slack d hfree hd =>
    obtain ⟨hrow, _, hact⟩ := Dispatch.load_ok hd
    obtain rfl : d.signal.id = signalId := Table.key_of_get hrow
    exact ⟨hl'.set ⟨d.signal, hrow, hsound.action _ _ hrow hact, rfl⟩, hr'⟩
  | enrich i s c delay hd => exact ⟨hl'.advance hd (Dispatch.enrich_signal _ _ s c delay), hr'⟩
  | unlocked i s hd hc => exact ⟨hl'.advance hd rfl, hr'⟩
  | suppressed i s c hd hc hfree hcool => exact ⟨hl'.advance hd rfl, hr'⟩
  | locked i s c hd hc hfree hcool => exact ⟨hl'.advance hd rfl, hr'⟩
  | collect i s c hd => exact ⟨hl'.advance hd rfl, hr'⟩
  | deliver i s c pending result hd =>
    exact ⟨hl'.advance hd (Dispatch.deliver_signal s w.now result), hr'⟩
  | finish i e hd hmay =>
    refine ⟨hl'.clear, ?_⟩
    intro p hp
    rcases List.mem_append.mp hp with hp | hp
    · exact hr' p hp
    · -- the execution that is committed: its row still has the action it was loaded with
      obtain ⟨a, ha, rfl⟩ := List.mem_map.mp hp
      obtain ⟨row, hrow, hproc, hact⟩ := hl' i _ hd
      have ha : e.signal.actionTaken = some a := by simpa using ha
      exact ⟨row, hrow, hproc, hact.trans ha⟩
  | crash i => exact ⟨hl'.clear, hr'⟩
  | digest => exact ⟨hl', hr'⟩

end World

/-! ## Runs -/

/-- The verdicts of one run: they are kept from every state to every later one, and the
action recorded on an executed signal is the one that was executed. -/
def VerdictsFinal (cfg : PipelineConfig) (t : Time) (events : List Event) : Prop :=
  Run.AllPairs (World.step cfg) (fun w w' => VerdictsKept w.signals w'.signals)
      (World.init t) events ∧
    Run.AllStates (World.step cfg) (fun w => ActionsRecorded w.signals w.executions)
      (World.init t) events

/-- If no verdict is committed to a row that has one, verdicts are final. -/
theorem verdictsFinal_of_unprocessed (cfg : PipelineConfig) (t : Time) (events : List Event)
    (h : Run.AllSteps (World.step cfg) (fun w ev => concludesUnprocessed w ev = true)
      (World.init t) events) : VerdictsFinal cfg t events := by
  constructor
  · refine Run.AllPairs.of_inv (I := fun _ => True)
      (C := fun w ev => concludesUnprocessed w ev = true)
      (R := fun w w' => VerdictsKept w.signals w'.signals)
      (fun w => VerdictsKept.refl w.signals) VerdictsKept.trans ?_ trivial h
    exact fun w ev w' _ hc hs => ⟨trivial, World.verdictsKept_step hc hs⟩
  · have hinv : Run.AllStates (World.step cfg) (fun w =>
        Sound w.signals w.analyses w.dispatches ∧ Loaded w.signals w.dispatches ∧
          ActionsRecorded w.signals w.executions) (World.init t) events := by
      refine Run.AllStates.of_inv ?_ ⟨Sound.init, Slots.All.none, fun p hp => nomatch hp⟩ h
      intro w ev w' hw hc hs
      exact ⟨World.sound_step hw.1 hs, World.loaded_step hw.1 hw.2.1 hw.2.2 hc hs⟩
    exact hinv.mono fun w hw => hw.2.2

/-- A signal that is analysed twice, one analysis after the other, and executed. -/
theorem verdictsFinal_sequential : VerdictsFinal {} 0
    (analysedSignal 1 1 80 ++ [.analyze 0 1, .execute 0 1 false, .finish 0]) :=
  verdictsFinal_of_unprocessed {} 0 _ (Run.AllSteps.of_check (fun _ _ h => h) (by decide +kernel))

/-- Two analyses of one signal side by side; the first verdict is executed before the second
one is committed. -/
def secondVerdict : List Event :=
  [.addSignal 1 1 .other none (some (String.ofList (List.replicate 60 'x'))),
   .analyze 0 1, .check 0 true, .analyze 1 1, .check 1 true,
   .classify 0 (.ok { signalType := "expansion", reasoning := "" }),
   .score 0 (.ok { relevanceScore := 80, reasoning := "" }), .conclude 0,
   .execute 0 1 false, .finish 0,
   .classify 1 (.ok { signalType := "partnership", reasoning := "" }),
   .score 1 (.ok { relevanceScore := 10, reasoning := "" }), .conclude 1]

/-- The verdict changes, and the action recorded is not the one that was executed. -/
theorem secondVerdict_not_final : ¬ VerdictsFinal {} 0 secondVerdict := by
  intro h
  refine Run.not_allStates (q := fun w => w.executions.any fun p =>
    (w.signal p.1).any (·.actionTaken ≠ some p.2)) (fun w hw => ?_) ?_ h.2
  · refine Bool.eq_false_iff.mpr fun hq => ?_
    obtain ⟨p, hp, hne⟩ := List.any_eq_true.mp hq
    obtain ⟨row, hrow, _, hact⟩ := hw p hp
    have hrow' : w.signal p.1 = some row := hrow
    simp [hrow', hact] at hne
  · decide +kernel

end LeadPulse
