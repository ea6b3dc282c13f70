import LeadPulse.Pipeline.Sound

/-!
# The daily digest

The orchestrator leaves two kinds of signals to the next digest: those with the action
`NOTIFY_DIGEST`, and those that the cooldown has suppressed. `send_daily_digest` loads the
processed signals that were *created* in the last 24 hours, whereas they wait for it from the
moment when they were processed: `delayed_missed` is a run with daily digests in which a
signal falls in between.

`nothingMissed_iff` says exactly when no signal is missed, for all runs.
-/

namespace LeadPulse

/-- No digest has left out a signal that waited for it. -/
def NothingMissed (w : World) : Prop := w.missed = []

/-- A digest comes at most 24 hours after the creation of every signal that waits for it. -/
def digestInTime (w : World) : Event → Bool
  | .digest => w.awaiting.all fun id => (w.signal id).any fun s => w.now - hours 24 ≤ s.createdAt
  | _ => true

/-- No 24 hours pass without a digest; `gap` is the time since the last one. -/
def dailyDigests (gap : Time) : List Event → Bool
  | [] => true
  | .tick d :: events => gap + d ≤ hours 24 ∧ dailyDigests (gap + d) events
  | .digest :: events => dailyDigests 0 events
  | _ :: events => dailyDigests gap events

/-! ## The signals that a digest loads -/

/-- A digest loads a signal with a verdict exactly if it is new enough. -/
theorem mem_digestSignals_iff {signals : List Signal} (hkeyed : Table.Keyed Signal.id signals)
    (now : Time) {signalId : ℕ} {row : Signal}
    (hrow : Table.get Signal.id signals signalId = some row) (hp : row.isProcessed = true) :
    signalId ∈ (digestSignals signals now).map (·.id) ↔ now - hours 24 ≤ row.createdAt := by
  have hid : row.id = signalId := Table.key_of_get hrow
  constructor
  · intro h
    obtain ⟨s, hs, hsid⟩ := List.mem_map.mp h
    have hs' := List.mem_mergeSort.mp hs
    obtain ⟨hmem, hcond⟩ := List.mem_filter.mp hs'
    -- the row with this id is unique
    have hget := Table.get_of_mem hkeyed hmem
    rw [hsid, hrow] at hget
    obtain rfl := Option.some.inj hget
    exact (of_decide_eq_true hcond).1
  · intro h
    refine List.mem_map.mpr ⟨row, List.mem_mergeSort.mpr ?_, hid⟩
    exact List.mem_filter.mpr ⟨Table.mem_of_get hrow, decide_eq_true ⟨h, hp⟩⟩

/-- The signals that wait for the digest have a verdict. -/
def AwaitingVerdict (w : World) : Prop := ∀ id ∈ w.awaiting, HasVerdict w.signals id

namespace World

theorem awaiting_init (t : Time) : AwaitingVerdict (init t) := by
  intro id hid
  cases hid

/-- What a digest misses are the signals that are too old for it. -/
theorem sendDigest_missed {w : World} (hsound : Sound w.signals w.analyses w.dispatches)
    (ha : AwaitingVerdict w) (hm : w.missed = []) :
    w.sendDigest.missed = [] ↔ digestInTime w .digest = true := by
  unfold sendDigest digestInTime
  rw [hm, List.nil_append, List.filter_eq_nil_iff, List.all_eq_true]
  refine forall₂_congr fun id hid => ?_
  obtain ⟨row, hrow, hp⟩ := ha id hid
  have hrow' : w.signal id = some row := hrow
  have hiff := mem_digestSignals_iff hsound.keyed w.now hrow hp
  simp only [hrow', Option.any_some, decide_eq_true_eq, not_not]
  exact hiff

theorem awaiting_step {cfg : PipelineConfig} {w w' : World} {ev : Event}
    (hsound : Sound w.signals w.analyses w.dispatches) (h : AwaitingVerdict w)
    (hs : step cfg w ev = some w') : AwaitingVerdict w' := by
  have hkeep : ∀ id ∈ w.awaiting, HasVerdict w'.signals id :=
    fun id hid => hasVerdict_step hsound (h id hid) hs
  cases step_move hs with
  | write hw =>
    have hq := hw.quiet
    intro id hid
    rw [hq.awaiting] at hid
    exact hkeep id hid
  | verdict i l v hlv =>
    intro id hid
    have hid : id ∈ if v.actionTaken = some .notifyDigest then w.awaiting ++ [l.id]
      else w.awaiting := hid
    split at hid
    · rcases List.mem_append.mp hid with hid | hid
      · exact hkeep id hid
      · obtain rfl := List.mem_singleton.mp hid
        exact hasVerdict_commit hsound hlv
    · exact hkeep id hid
  | suppressed i s c hd hc hfree hcool =>
    intro id hid
    rcases List.mem_append.mp hid with hid | hid
    · exact hkeep id hid
    · obtain rfl := List.mem_singleton.mp hid
      exact (hsound.dispatch i _ hd).2
  | digest => exact fun id hid => nomatch hid
  | _ => exact hkeep

/-- Only a digest can miss a signal. -/
theorem missed_step {cfg : PipelineConfig} {w w' : World} {ev : Event}
    (hs : step cfg w ev = some w') (hev : ev ≠ .digest) : w'.missed = w.missed := by
  cases step_move hs with
  | write hw => exact hw.quiet.missed
  | digest => exact absurd rfl hev
  | _ => rfl

end World

/-- No digest of a run misses a signal that waits for it, exactly if every digest comes at
most 24 hours after the creation of the signals that wait for it. -/
theorem nothingMissed_iff (cfg : PipelineConfig) (t : Time) (events : List Event) :
    Run.AllStates (World.step cfg) NothingMissed (World.init t) events ↔
      Run.AllSteps (World.step cfg) (fun w ev => digestInTime w ev = true)
        (World.init t) events := by
  refine Run.allStates_iff_allSteps (I := fun w => Sound w.signals w.analyses w.dispatches ∧
    AwaitingVerdict w ∧ w.missed = []) (fun w hw => hw.2.2) ?_ ?_
    ⟨Sound.init, World.awaiting_init t, rfl⟩ events
  · intro w ev w' ⟨hsound, ha, hm⟩ hc hs
    refine ⟨World.sound_step hsound hs, World.awaiting_step hsound ha hs, ?_⟩
    by_cases hev : ev = .digest
    · subst hev
      cases hs
      exact (World.sendDigest_missed hsound ha hm).mpr hc
    · rw [World.missed_step hs hev]
      exact hm
  · intro w ev w' ⟨hsound, ha, hm⟩ hc hs hm'
    -- the condition holds of every event but a digest
    by_cases hev : ev = .digest
    · subst hev
      cases hs
      exact hc ((World.sendDigest_missed hsound ha hm).mp hm')
    · refine hc ?_
      cases ev with
      | digest => exact absurd rfl hev
      | _ => rfl

/-- Daily digests, and a signal that is created an hour after the first one and analysed two
hours after the second one. -/
def delayed : List Event :=
  [.digest, .tick (hours 1),
   .addSignal 1 1 .other none (some (String.ofList (List.replicate 60 'x'))),
   .tick (hours 23), .digest, .tick (hours 2),
   .analyze 0 1, .check 0 true, .classify 0 (.ok { signalType := "expansion", reasoning := "" }),
   .score 0 (.ok { relevanceScore := 60, reasoning := "" }), .conclude 0,
   .execute 0 1 true, .finish 0, .tick (hours 22), .digest]

/-- The third digest is the first one after the verdict, and misses the signal. -/
theorem delayed_missed : dailyDigests 0 delayed = true ∧
    ¬ Run.AllStates (World.step {}) NothingMissed (World.init 0) delayed := by
  refine ⟨by decide +kernel, Run.not_allStates (q := fun w => w.missed = [1]) ?_ ?_⟩
  · intro w hw
    simp [show w.missed = [] from hw]
  · decide +kernel

end LeadPulse
