import LeadPulse.Signals.Queue

/-!
# No action is lost between analysis and dispatch

The task takes the first `processed` ids of its own list for the ids that `process_queue` has
processed. `otherWorker_loses` is a run in which another worker processes the first signal
between the two queries: the run analyses the second signal, and dispatches the first one.

`actionsDispatched_of_inPlace` says when the answer is right: in every run in which each signal that
is dealt with has its place in the task's own list, and no exception leaves the task once a signal
has been marked.
-/

namespace LeadPulse

/-- Every signal that the run has marked processed is among the ids it returns, and no
unprocessed signal is. A run that ends in an exception returns none. -/
def ActionsDispatched (w : QueueWorld) : Prop :=
  (∀ processedIds, w.phase = .done processedIds →
    (∀ id ∈ w.marked, id ∈ processedIds) ∧
    ∀ id ∈ processedIds, (Table.get Signal.id w.signals id).all (·.isProcessed) = true) ∧
  (w.phase = .raised → w.marked = [])

/-- The signal with which the loop is done after the event: it gets its verdict, or it is found to
be processed or gone when its turn comes. -/
def dealtWith (w : QueueWorld) : QueueEvent → Option ℕ
  | .next false =>
    match w.phase with
    | .looping _ signalIds processed => signalIds[processed]?.filter fun id =>
        (Table.get Signal.id w.signals id).all (·.isProcessed)
    | _ => none
  | .conclude =>
    match w.phase with
    | .analysing _ _ _ (.committing loaded _) =>
      (Table.get Signal.id w.signals loaded.id).map (·.id)
    | _ => none
  | _ => none

/-- The first query has returned the signal in this place. -/
def pendingAt (id : ℕ) : QueuePhase → Bool
  | .looping pendingIds _ processed | .analysing pendingIds _ processed _ =>
    pendingIds[processed]? = some id
  | _ => true

/-- The signal that the loop is done with was in this place already when the task took its list, and
an exception leaves the task only before it has marked any. -/
def inPlace (w : QueueWorld) (ev : QueueEvent) : Bool :=
  (dealtWith w ev).all (pendingAt · w.phase) && (ev ≠ .raiseOutside || w.marked = [])

/-! ## Signals that are settled -/

/-- The signal is processed, or is gone for good. -/
structure Settled (nextId : ℕ) (signals : List Signal) (id : ℕ) : Prop where
  lt : id < nextId
  processed : (Table.get Signal.id signals id).all (·.isProcessed) = true

/-- The ids of the signals come from the sequence. -/
def Issued (nextId : ℕ) (signals : List Signal) : Prop := ∀ s ∈ signals, s.id < nextId

theorem Issued.flush {nextId k : ℕ} {signals : List Signal} (h : Issued nextId signals)
    (l v : Signal) : Issued nextId (Table.modify Signal.id signals k (Signal.flush l v)) :=
  Table.lt_map h (Table.key_modify (Signal.flush_id l v))

namespace Settled

variable {nextId id k : ℕ} {signals : List Signal}

/-- A new signal has a new id. -/
theorem append (h : Settled nextId signals id) {s : Signal} (hs : s.id = nextId) :
    Settled (nextId + 1) (signals ++ [s]) id where
  lt := Nat.lt_succ_of_lt h.lt
  processed := by
    cases hg : Table.get Signal.id signals id with
    | none =>
      have hne : s.id ≠ id := by
        have := h.lt
        omega
      rw [Table.get_append_of_none hg, if_neg hne]
      rfl
    | some row =>
      rw [Table.get_append_of_some hg]
      have := h.processed
      rw [hg] at this
      exact this

theorem remove (h : Settled nextId signals id) :
    Settled nextId (Table.remove Signal.id signals k) id where
  lt := h.lt
  processed := by
    rw [Table.get_remove]
    split
    · rfl
    · exact h.processed

/-- A row that gets a verdict stays processed, or becomes so. -/
theorem flush (h : Settled nextId signals id) {l v : Signal} (hl : l.isProcessed = false)
    (hv : v.isProcessed = true) :
    Settled nextId (Table.modify Signal.id signals k (Signal.flush l v)) id where
  lt := h.lt
  processed := by
    rw [Table.get_modify (Signal.flush_id l v)]
    split
    · rw [Option.all_map]
      cases Table.get Signal.id signals id with
      | none => rfl
      | some row => exact Signal.flush_isProcessed hl hv
    · exact h.processed

end Settled

/-! ## The invariant -/

/-- What the run knows in the loop: the first `processed` signals of its list are those of the
task's, they are settled, and those that it has marked are among them. -/
structure InLoop (nextId : ℕ) (signals : List Signal) (marked pendingIds signalIds : List ℕ)
    (processed : ℕ) : Prop where
  same : pendingIds.take processed = signalIds.take processed
  issued : ∀ id ∈ signalIds, id < nextId
  settled : ∀ id ∈ signalIds.take processed, Settled nextId signals id
  marked : ∀ id ∈ marked, id ∈ signalIds.take processed

/-- What is known in each phase. -/
def PhaseInv (nextId : ℕ) (signals : List Signal) (marked : List ℕ) : QueuePhase → Prop
  | .start | .listed _ => marked = []
  | .looping pendingIds signalIds processed | .returned pendingIds signalIds processed =>
    InLoop nextId signals marked pendingIds signalIds processed
  | .analysing pendingIds signalIds processed a =>
    InLoop nextId signals marked pendingIds signalIds processed ∧
      signalIds[processed]? = some a.signal.id ∧ a.Valid
  | .done processedIds => (∀ id ∈ marked, id ∈ processedIds) ∧
      ∀ id ∈ processedIds, Settled nextId signals id
  | .raised => marked = []

structure QueueWorld.Inv (w : QueueWorld) : Prop where
  issued : Issued w.nextId w.signals
  phase : PhaseInv w.nextId w.signals w.marked w.phase

/-- The current signal has been settled. -/
theorem InLoop.next {nextId : ℕ} {signals : List Signal} {marked pendingIds signalIds : List ℕ}
    {processed id : ℕ} (h : InLoop nextId signals marked pendingIds signalIds processed)
    (hid : signalIds[processed]? = some id) (hplace : pendingIds[processed]? = some id)
    (hset : Settled nextId signals id) :
    InLoop nextId signals marked pendingIds signalIds (processed + 1) where
  same := by rw [List.take_add_one, List.take_add_one, h.same, hid, hplace]
  issued := h.issued
  settled := by
    rw [List.take_add_one, hid]
    intro k hk
    rcases List.mem_append.mp hk with hk | hk
    · exact h.settled k hk
    · obtain rfl := List.mem_singleton.mp hk
      exact hset
  marked := by
    rw [List.take_add_one]
    exact fun k hk => List.mem_append_left _ (h.marked k hk)

namespace QueueWorld

/-- What other workers do keeps what the run knows. -/
theorem phaseInv_others {nextId nextId' : ℕ} {signals signals' : List Signal} {marked : List ℕ}
    {phase : QueuePhase} (h : PhaseInv nextId signals marked phase) (hnext : nextId ≤ nextId')
    (hsettled : ∀ id, Settled nextId signals id → Settled nextId' signals' id) :
    PhaseInv nextId' signals' marked phase := by
  have hloop : ∀ {pendingIds signalIds processed},
      InLoop nextId signals marked pendingIds signalIds processed →
      InLoop nextId' signals' marked pendingIds signalIds processed := fun hl =>
    ⟨hl.same, fun id hid => Nat.lt_of_lt_of_le (hl.issued id hid) hnext,
      fun id hid => hsettled id (hl.settled id hid), hl.marked⟩
  cases phase with
  | start => exact h
  | listed pendingIds => exact h
  | looping pendingIds signalIds processed => exact hloop h
  | analysing pendingIds signalIds processed a => exact ⟨hloop h.1, h.2⟩
  | returned pendingIds signalIds processed => exact hloop h
  | done processedIds => exact ⟨h.1, fun id hid => hsettled id (h.2 id hid)⟩
  | raised => exact h

theorem inv_init (t : Time) : (init t).Inv where
  issued := fun _ hs => nomatch hs
  phase := rfl

theorem inv_others {w w' : QueueWorld} {ev : QueueEvent} (h : w.Inv)
    (hs : w.others ev = some w') : w'.Inv := by
  cases ev with
  | tick d =>
    simp only [others] at hs
    split at hs
    · cases hs
      exact ⟨h.issued, phaseInv_others h.phase (Nat.le_refl _) fun _ hid => hid⟩
    · cases hs
  | addSignal companyId signalType rawContentHash rawMarkdown =>
    cases hs
    exact ⟨Table.lt_append h.issued rfl,
      phaseInv_others h.phase (Nat.le_succ _) fun id hid => hid.append rfl⟩
  | deleteSignal signalId =>
    cases hs
    refine ⟨fun s hs => ?_, phaseInv_others h.phase (Nat.le_refl _) fun id hid => hid.remove⟩
    exact h.issued s (List.mem_filter.mp hs).1
  | otherVerdict loaded verdict =>
    simp only [others] at hs
    split at hs
    · rename_i hv
      cases hs
      exact ⟨h.issued.flush loaded verdict,
        phaseInv_others h.phase (Nat.le_refl _) fun id hid => hid.flush hv.1 hv.2⟩
    · cases hs
  | _ => cases hs

/-! ## The steps of the run -/

/-- An analysis that goes on is one of the current signal; one that has returned has settled
it. -/
theorem inv_proceed {w : QueueWorld} {pendingIds signalIds : List ℕ} {processed id : ℕ}
    {o : Outcome} (hissued : Issued w.nextId w.signals)
    (h : InLoop w.nextId w.signals w.marked pendingIds signalIds processed)
    (hid : signalIds[processed]? = some id)
    (hrun : ∀ a, o = .running a → a.signal.id = id ∧ a.Valid)
    (hret : ∀ b, o = .returned b → pendingIds[processed]? = some id ∧
      Settled w.nextId w.signals id) :
    (w.proceed pendingIds signalIds processed o).Inv := by
  cases o with
  | running a =>
    obtain ⟨hsame, hvalid⟩ := hrun a rfl
    exact ⟨hissued, h, hsame ▸ hid, hvalid⟩
  | returned b => exact ⟨hissued, h.next hid (hret b rfl).1 (hret b rfl).2⟩
  | raised => exact ⟨hissued, h⟩

theorem inv_turn {w w' : QueueWorld} {pendingIds signalIds : List ℕ} {processed : ℕ}
    {budgetExceeded : Bool} (hissued : Issued w.nextId w.signals)
    (h : InLoop w.nextId w.signals w.marked pendingIds signalIds processed)
    (hphase : w.phase = .looping pendingIds signalIds processed)
    (hc : inPlace w (.next budgetExceeded) = true)
    (hs : w.turn pendingIds signalIds processed budgetExceeded = some w') : w'.Inv := by
  unfold turn at hs
  split at hs
  · cases hs
    exact ⟨hissued, h⟩
  · rename_i id hid
    split at hs
    · split at hs
      · cases hs
      · cases hs
        exact ⟨hissued, h⟩
    · rename_i hbudget
      obtain rfl : budgetExceeded = false := by simpa using hbudget
      cases hs
      refine inv_proceed hissued h hid (fun a ha => ?_) fun b hb => ?_
      · obtain ⟨hrow, hvalid⟩ := Analysis.load_running ha
        exact ⟨Table.key_of_get hrow, hvalid⟩
      · have hprocessed := Analysis.load_returned hb
        refine ⟨?_, h.issued id (List.mem_of_getElem? hid), hprocessed⟩
        -- the signal was processed or gone, so this was its turn
        have hdealt : dealtWith w (.next false) = some id := by
          simp only [dealtWith, hphase, hid, Option.filter_some, hprocessed, if_true]
        simpa [inPlace, hdealt, pendingAt, hphase] using hc

/-- The commit of a verdict settles its signal, and marks it. -/
theorem inv_commit {w : QueueWorld} {pendingIds signalIds : List ℕ} {processed : ℕ}
    {l v : Signal} (hissued : Issued w.nextId w.signals)
    (h : InLoop w.nextId w.signals w.marked pendingIds signalIds processed)
    (hid : signalIds[processed]? = some l.id) (hl : l.isProcessed = false) (hv : Verdict l v)
    (hphase : w.phase = .analysing pendingIds signalIds processed (.committing l v))
    (hc : inPlace w .conclude = true) :
    (w.commit pendingIds signalIds processed l v).Inv := by
  unfold commit
  split
  · rename_i hrow
    have hflush : ∀ id, Settled w.nextId w.signals id → Settled w.nextId
        (Table.modify Signal.id w.signals l.id (Signal.flush l v)) id :=
      fun id hset => hset.flush hl hv.processed
    have hcur :
        Settled w.nextId (Table.modify Signal.id w.signals l.id (Signal.flush l v)) l.id := by
      refine ⟨h.issued _ (List.mem_of_getElem? hid), ?_⟩
      rw [Table.get_modify_self (Signal.flush_id l v), Option.all_map]
      cases Table.get Signal.id w.signals l.id with
      | none => rfl
      | some row => exact Signal.flush_isProcessed hl hv.processed
    have hplace : pendingIds[processed]? = some l.id := by
      obtain ⟨row, hrow⟩ := Option.isSome_iff_exists.mp hrow
      have hdealt : dealtWith w .conclude = some l.id := by
        simp only [dealtWith, hphase, hrow, Option.map_some, Table.key_of_get hrow]
      simpa [inPlace, hdealt, pendingAt, hphase] using hc
    have htake : signalIds.take (processed + 1) = signalIds.take processed ++ [l.id] := by
      rw [List.take_add_one, hid]
      rfl
    refine ⟨hissued.flush l v, ?_, h.issued, ?_, ?_⟩
    · rw [htake, List.take_add_one, hplace, h.same]
      rfl
    · -- the earlier ones stay settled, the current one is settled by this commit
      intro id hmem
      rw [htake] at hmem
      rcases List.mem_append.mp hmem with hmem | hmem
      · exact hflush id (h.settled id hmem)
      · obtain rfl := List.mem_singleton.mp hmem
        exact hcur
    · intro id hmem
      rw [htake]
      rcases List.mem_append.mp hmem with hmem | hmem
      · exact List.mem_append_left _ (h.marked id hmem)
      · exact List.mem_append_right _ hmem
  · exact ⟨hissued, h⟩

/-- A result of the query holds only ids that have been issued. -/
theorem issued_of_isPendingList {w : QueueWorld} {order : List ℕ}
    (hissued : Issued w.nextId w.signals) (h : IsPendingList w.signals order) :
    ∀ id ∈ order, id < w.nextId := by
  intro id hid
  obtain ⟨s, hs, rfl⟩ := List.mem_map.mp (h.1.mem_iff.mp hid)
  exact hissued s (List.mem_filter.mp hs).1

/-- The analysis is answered. -/
theorem inv_answer {w w' : QueueWorld} {pendingIds signalIds : List ℕ} {processed : ℕ}
    {a : Analysis} {ev : QueueEvent} (hissued : Issued w.nextId w.signals)
    (h : InLoop w.nextId w.signals w.marked pendingIds signalIds processed)
    (hid : signalIds[processed]? = some a.signal.id) (hvalid : a.Valid)
    (hphase : w.phase = .analysing pendingIds signalIds processed a)
    (hc : inPlace w ev = true)
    (hs : w.answer pendingIds signalIds processed a ev = some w') : w'.Inv := by
  unfold answer at hs
  split at hs
  · cases hs
    refine inv_proceed hissued h hid (fun a ha => ?_)
      fun b hb => absurd hb Analysis.check_ne_returned
    obtain ⟨hsame, hv⟩ := Analysis.check_running ha
    exact ⟨congrArg Signal.id hsame, hv hvalid.unprocessed⟩
  · cases hs
    refine inv_proceed hissued h hid (fun a ha => ?_)
      fun b hb => absurd hb Analysis.classify_ne_returned
    obtain ⟨hsame, hv⟩ := Analysis.classify_running ha
    exact ⟨congrArg Signal.id hsame, hv hvalid.unprocessed⟩
  · cases hs
    refine inv_proceed hissued h hid (fun a ha => ?_)
      fun b hb => absurd hb Analysis.score_ne_returned
    obtain ⟨hsame, hv⟩ := Analysis.score_running ha
    exact ⟨congrArg Signal.id hsame, hv hvalid.unprocessed⟩
  · cases hs
    exact inv_commit hissued h hid hvalid.unprocessed (hvalid.verdict _ _ rfl) hphase hc
  · cases hs
    exact ⟨hissued, h⟩
  · cases hs

theorem inv_leave {w w' : QueueWorld} (hissued : Issued w.nextId w.signals)
    (hc : inPlace w .raiseOutside = true) (hs : w.leave w.phase = some w') : w'.Inv := by
  obtain rfl := leave_some hs
  have hmarked : w.marked = [] := by
    rw [inPlace, Bool.and_eq_true] at hc
    simpa using hc.2
  exact ⟨hissued, hmarked⟩

theorem inv_run {w w' : QueueWorld} {ev : QueueEvent} (h : w.Inv)
    (hc : inPlace w ev = true) (hs : w.run w.phase ev = some w') : w'.Inv := by
  obtain ⟨hissued, hphase⟩ := h
  by_cases hraise : ev = .raiseOutside
  · subst hraise
    exact inv_leave hissued hc (run_raiseOutside w w.phase ▸ hs)
  cases hp : w.phase with
  | start =>
    rw [hp] at hs hphase
    cases ev with
    | listPending order =>
      simp only [run] at hs
      split at hs
      · cases hs
        exact ⟨hissued, hphase⟩
      · cases hs
    | raiseOutside => exact absurd rfl hraise
    | _ => cases hs
  | listed pendingIds =>
    rw [hp] at hs hphase
    cases ev with
    | listSignals order =>
      simp only [run] at hs
      split at hs
      · rename_i horder
        cases hs
        refine ⟨hissued, ?_, issued_of_isPendingList hissued horder, fun id hid => ?_, ?_⟩
        · rw [List.take_zero, List.take_zero]
        · rw [List.take_zero] at hid
          cases hid
        · have hmarked : w.marked = [] := hphase
          intro id hid
          rw [hmarked] at hid
          cases hid
      · cases hs
    | raiseOutside => exact absurd rfl hraise
    | _ => cases hs
  | looping pendingIds signalIds processed =>
    rw [hp] at hs hphase
    cases ev with
    | next budgetExceeded => exact inv_turn hissued hphase hp hc hs
    | raise =>
      cases hs
      exact ⟨hissued, hphase⟩
    | raiseOutside => exact absurd rfl hraise
    | _ => cases hs
  | analysing pendingIds signalIds processed a =>
    rw [hp] at hs hphase
    cases ev with
    | raiseOutside => exact absurd rfl hraise
    | _ => exact inv_answer hissued hphase.1 hphase.2.1 hphase.2.2 hp hc hs
  | returned pendingIds signalIds processed =>
    rw [hp] at hs hphase
    cases ev with
    | finish =>
      cases hs
      -- here the two lists have to agree
      have hloop : InLoop w.nextId w.signals w.marked pendingIds signalIds processed := hphase
      refine ⟨hissued, ?_, ?_⟩
      · rw [hloop.same]
        exact hloop.marked
      · rw [hloop.same]
        exact hloop.settled
    | raiseOutside => exact absurd rfl hraise
    | _ => cases hs
  | done processedIds =>
    rw [hp] at hs
    cases ev <;> cases hs
  | raised =>
    rw [hp] at hs
    cases ev <;> cases hs

theorem inv_step {w w' : QueueWorld} {ev : QueueEvent} (h : w.Inv)
    (hc : inPlace w ev = true) (hs : w.step ev = some w') : w'.Inv := by
  rcases Option.or_eq_some_iff.mp hs with ho | ⟨_, hr⟩
  · exact inv_others h ho
  · exact inv_run h hc hr

end QueueWorld

/-! ## Runs -/

/-- Two new signals, both too short to be worth a call of the model. -/
def twoSignals : List QueueEvent :=
  [.addSignal 1 .other none none, .tick 1, .addSignal 1 .other none none]

/-- Another worker processes the first signal between the two queries. -/
def otherWorker : List QueueEvent :=
  twoSignals ++ [.listPending [0, 1],
    .otherVerdict { id := 0, companyId := 1, signalType := .other, createdAt := 0 }
      (Signal.skip { id := 0, companyId := 1, signalType := .other, createdAt := 0 }),
    .listSignals [1], .next false, .conclude, .next false, .finish]

end LeadPulse
