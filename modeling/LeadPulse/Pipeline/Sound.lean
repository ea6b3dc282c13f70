import LeadPulse.Lib.Slots
import LeadPulse.Pipeline.Moves

/-!
# Sound states

`Sound` says how the signals in the table and the workers on them belong together, whatever
the order of the steps has been. The invariants of the later modules rest on it.
-/

namespace LeadPulse

/-- The signal is in the table, with a verdict. -/
def HasVerdict (signals : List Signal) (signalId : ℕ) : Prop :=
  ∃ row, Table.get Signal.id signals signalId = some row ∧ row.isProcessed = true

/-- What an execution is about to commit: an audit entry about its signal, and for its
company no status but `MONITORING`. -/
structure Dispatch.Valid (d : Dispatch) : Prop where
  entry : ∀ e entry, d = .committing e → e.audit = some entry → entry.signalId = e.signal.id
  status : ∀ e s, d = .committing e → e.companyStatus = some s → s = .monitoring

structure Sound (signals : List Signal) (analyses : ℕ → Option Analysis)
    (dispatches : ℕ → Option Dispatch) : Prop where
  keyed : Table.Keyed Signal.id signals
  /-- A signal with an action has a verdict. -/
  action : ∀ signalId row, Table.get Signal.id signals signalId = some row →
    row.actionTaken.isSome = true → row.isProcessed = true
  analysis : Slots.All (fun _ a =>
    a.Valid ∧ (Table.get Signal.id signals a.signal.id).isSome = true) analyses
  dispatch : Slots.All (fun _ d => d.Valid ∧ HasVerdict signals d.signal.id) dispatches

namespace Dispatch

/-- An execution that is not about to commit has nothing to commit. -/
theorem valid_of_ne {d : Dispatch} (h : ∀ e, d ≠ .committing e) : d.Valid :=
  ⟨fun e _ hd _ => absurd hd (h e), fun e _ hd _ => absurd hd (h e)⟩

theorem valid_committing {e : Execution}
    (haudit : ∀ entry, e.audit = some entry → entry.signalId = e.signal.id)
    (hstatus : ∀ s, e.companyStatus = some s → s = .monitoring) : (committing e).Valid := by
  constructor
  · intro e' entry he
    cases he
    exact haudit entry
  · intro e' s he
    cases he
    exact hstatus s

theorem valid_committing_bare (s : Signal) : (committing { signal := s }).Valid :=
  valid_committing (fun _ h => nomatch h) fun _ h => nomatch h

theorem valid_load {signals : List Signal} {companies : List Company} {slack : Bool}
    {signalId : ℕ} {d : Dispatch} (h : load signals companies slack signalId = .ok d) :
    d.Valid := by
  unfold load at h
  split at h
  · cases h
  · rename_i s hs
    split at h
    · cases h
    · split at h
      · cases h
      · cases h
        split
        · exact valid_of_ne fun e he => nomatch he
        · exact valid_committing_bare s
      · cases h
        refine valid_committing (fun entry he => ?_) fun _ he => nomatch he
        cases he
        rfl
      · cases h
        exact valid_of_ne fun e he => nomatch he
      · cases h
        exact valid_committing_bare s

theorem valid_enrich (limit count : ℕ) (s : Signal) (company : Option Company)
    (delay : Except String Unit) : (committing (enrich limit count s company delay)).Valid := by
  unfold enrich
  split
  · refine valid_committing (fun entry he => ?_) fun _ he => nomatch he
    cases he
    rfl
  · refine valid_committing (fun entry he => ?_) fun status hs => ?_
    · cases he
      rfl
    · obtain ⟨c, _, hc⟩ := Option.bind_eq_some_iff.mp hs
      split at hc
      · cases hc
      · exact (Option.some.inj hc).symm

theorem valid_deliver (s : Signal) (now : Time) (result : Except String Bool) :
    (committing (deliver s now result)).Valid := by
  unfold deliver
  split
  all_goals
    refine valid_committing (fun entry he => ?_) fun _ he => nomatch he
    cases he
    rfl

theorem enrich_signal (limit count : ℕ) (s : Signal) (company : Option Company)
    (delay : Except String Unit) : (enrich limit count s company delay).signal = s := by
  unfold enrich
  split <;> rfl

theorem deliver_signal (s : Signal) (now : Time) (result : Except String Bool) :
    (deliver s now result).signal = s := by
  unfold deliver
  split <;> rfl

end Dispatch

/-! ## Executed signals -/

/-- The guard of `execute`: the row has no `action_executed_at`. -/
def Unexecuted (signals : List Signal) (signalId : ℕ) : Prop :=
  (Table.get Signal.id signals signalId).all (·.actionExecutedAt.isNone) = true

instance (signals : List Signal) (signalId : ℕ) : Decidable (Unexecuted signals signalId) :=
  inferInstanceAs (Decidable (_ = _))

theorem unexecuted_append {signals : List Signal} {s : Signal} {signalId : ℕ}
    (h : Unexecuted (signals ++ [s]) signalId) : Unexecuted signals signalId := by
  unfold Unexecuted at h ⊢
  cases hg : Table.get Signal.id signals signalId with
  | none => rfl
  | some row =>
    rw [Table.get_append_of_some hg] at h
    exact h

/-- An update that keeps `action_executed_at`. -/
theorem unexecuted_modify {signals : List Signal} {f : Signal → Signal} {k signalId : ℕ}
    (hid : ∀ r, (f r).id = r.id) (hf : ∀ r, (f r).actionExecutedAt = r.actionExecutedAt) :
    Unexecuted (Table.modify Signal.id signals k f) signalId ↔ Unexecuted signals signalId := by
  unfold Unexecuted
  rw [Table.get_modify hid]
  split
  · cases Table.get Signal.id signals signalId with
    | none => rfl
    | some row =>
      show (f row).actionExecutedAt.isNone = true ↔ row.actionExecutedAt.isNone = true
      rw [hf]
  · rfl

/-- After its commit a signal is executed, and the others are as before. -/
theorem unexecuted_finish {signals : List Signal} {k signalId : ℕ} {t : Time}
    (hk : (Table.get Signal.id signals k).isSome = true)
    (h : Unexecuted (Table.modify Signal.id signals k
      fun s => { s with actionExecutedAt := some t }) signalId) :
    signalId ≠ k ∧ Unexecuted signals signalId := by
  unfold Unexecuted at h ⊢
  rw [Table.get_modify (by exact fun _ => rfl)] at h
  split at h
  · rename_i heq
    subst heq
    obtain ⟨row, hrow⟩ := Option.isSome_iff_exists.mp hk
    simp [hrow] at h
  · rename_i hne
    exact ⟨hne, h⟩

namespace HasVerdict

variable {signals : List Signal} {signalId k : ℕ}

theorem append (h : HasVerdict signals signalId) (s : Signal) :
    HasVerdict (signals ++ [s]) signalId := by
  obtain ⟨row, hrow, hp⟩ := h
  exact ⟨row, Table.get_append_of_some hrow, hp⟩

/-- An update that keeps verdicts. -/
theorem modify (h : HasVerdict signals signalId) {f : Signal → Signal} (hid : ∀ r, (f r).id = r.id)
    (hf : ∀ r, r.isProcessed = true → (f r).isProcessed = true) :
    HasVerdict (Table.modify Signal.id signals k f) signalId := by
  obtain ⟨row, hrow, hp⟩ := h
  unfold HasVerdict
  rw [Table.get_modify hid]
  split
  · exact ⟨f row, by rw [hrow]; rfl, hf row hp⟩
  · exact ⟨row, hrow, hp⟩

end HasVerdict

namespace Sound

variable {signals : List Signal} {analyses : ℕ → Option Analysis}
  {dispatches : ℕ → Option Dispatch}

theorem init : Sound [] (fun _ => none) (fun _ => none) where
  keyed := List.nodup_nil
  action := fun _ _ h => nomatch h
  analysis := Slots.All.none
  dispatch := Slots.All.none

theorem addSignal (h : Sound signals analyses dispatches) {s : Signal}
    (hfresh : Table.get Signal.id signals s.id = none) (ha : s.actionTaken = none) :
    Sound (signals ++ [s]) analyses dispatches where
  keyed := h.keyed.append hfresh
  action := by
    intro signalId row hrow hact
    cases hg : Table.get Signal.id signals signalId with
    | none =>
      rw [Table.get_append_of_none hg] at hrow
      split at hrow
      · cases hrow
        simp [ha] at hact
      · cases hrow
    | some r =>
      rw [Table.get_append_of_some hg] at hrow
      cases hrow
      exact h.action signalId row hg hact
  analysis := h.analysis.mono fun i a _ hav => by
    refine ⟨hav.1, ?_⟩
    obtain ⟨row, hrow⟩ := Option.isSome_iff_exists.mp hav.2
    rw [Table.get_append_of_some hrow]
    rfl
  dispatch := h.dispatch.mono fun _ _ _ hd => ⟨hd.1, hd.2.append s⟩

/-- An update of a row that keeps what `Sound` says of it. -/
theorem modify (h : Sound signals analyses dispatches) {f : Signal → Signal} {k : ℕ}
    (hid : ∀ r, (f r).id = r.id) (hf : ∀ r, r.isProcessed = true → (f r).isProcessed = true)
    (ha : ∀ r, (r.actionTaken.isSome = true → r.isProcessed = true) →
      (f r).actionTaken.isSome = true → (f r).isProcessed = true) :
    Sound (Table.modify Signal.id signals k f) analyses dispatches where
  keyed := h.keyed.modify hid
  action := by
    intro signalId row hrow hact
    rw [Table.get_modify hid] at hrow
    split at hrow
    · obtain ⟨r, hr, rfl⟩ := Option.map_eq_some_iff.mp hrow
      exact ha r (h.action signalId r hr) hact
    · exact h.action signalId row hrow hact
  analysis := h.analysis.mono fun i a _ hav => by
    refine ⟨hav.1, ?_⟩
    rw [Table.get_modify hid]
    split
    · rw [Option.isSome_map]
      exact hav.2
    · exact hav.2
  dispatch := h.dispatch.mono fun _ _ _ hd => ⟨hd.1, hd.2.modify hid hf⟩

theorem setDispatch (h : Sound signals analyses dispatches) {i : ℕ} {d : Dispatch}
    (hv : d.Valid) (hs : HasVerdict signals d.signal.id) :
    Sound signals analyses (Function.update dispatches i (some d)) :=
  { h with dispatch := h.dispatch.set ⟨hv, hs⟩ }

theorem clearDispatch (h : Sound signals analyses dispatches) (i : ℕ) :
    Sound signals analyses (Function.update dispatches i none) :=
  { h with dispatch := h.dispatch.clear }

end Sound

namespace World

/-- Every step keeps the state sound. -/
theorem sound_step {cfg : PipelineConfig} {w w' : World} {ev : Event}
    (h : Sound w.signals w.analyses w.dispatches) (hs : step cfg w ev = some w') :
    Sound w'.signals w'.analyses w'.dispatches := by
  cases step_move hs with
  | write hw =>
    have hq := hw.quiet
    rw [hq.signals, hq.analyses, hq.dispatches]
    exact h
  | addSignal s hfresh hp ha he => exact h.addSignal hfresh ha
  | analysis i a ha =>
    refine { h with analysis := h.analysis.set ?_ }
    -- it has just been loaded, or it goes on with the signal it has
    rcases ha with ⟨hrow, hv⟩ | ⟨a₀, ha₀, hsame, hv⟩
    · exact ⟨hv, Option.isSome_of_mem hrow⟩
    · rw [hsame]
      exact ⟨hv (h.analysis i a₀ ha₀).1, (h.analysis i a₀ ha₀).2⟩
  | analysisEnds i => exact { h with analysis := h.analysis.clear }
  | verdict i l v hlv =>
    -- whatever the row was, it has a verdict now
    obtain ⟨hvalid, _⟩ := h.analysis i _ hlv
    have hproc : ∀ r, (Signal.flush l v r).isProcessed = true :=
      fun r => Signal.flush_isProcessed hvalid.unprocessed (hvalid.verdict l v rfl).processed
    have := h.modify (f := Signal.flush l v) (k := l.id) (Signal.flush_id l v)
      (fun r _ => hproc r) fun r _ _ => hproc r
    exact { this with analysis := this.analysis.clear }
  | start i signalId slack d hfree hd =>
    obtain ⟨hrow, _, hact⟩ := Dispatch.load_ok hd
    have hid : signalId = d.signal.id := (Table.key_of_get hrow).symm
    subst hid
    exact h.setDispatch (Dispatch.valid_load hd) ⟨d.signal, hrow, h.action _ _ hrow hact⟩
  | enrich i s c delay hd =>
    refine h.setDispatch (Dispatch.valid_enrich _ _ _ _ _) ?_
    show HasVerdict w.signals (Dispatch.enrich _ _ s c delay).signal.id
    rw [Dispatch.enrich_signal]
    exact (h.dispatch i _ hd).2
  | unlocked i s hd hc =>
    exact h.setDispatch (Dispatch.valid_committing_bare s) (h.dispatch i _ hd).2
  | suppressed i s c hd hc hfree hcool =>
    exact h.setDispatch (Dispatch.valid_committing_bare s) (h.dispatch i _ hd).2
  | locked i s c hd hc hfree hcool =>
    exact h.setDispatch (Dispatch.valid_of_ne fun e he => nomatch he) (h.dispatch i _ hd).2
  | collect i s c hd =>
    exact h.setDispatch (Dispatch.valid_of_ne fun e he => nomatch he) (h.dispatch i _ hd).2
  | deliver i s c pending result hd =>
    refine h.setDispatch (Dispatch.valid_deliver _ _ _) ?_
    show HasVerdict w.signals (Dispatch.deliver s w.now result).signal.id
    rw [Dispatch.deliver_signal]
    exact (h.dispatch i _ hd).2
  | finish i e hd hmay =>
    have := h.modify (f := fun s => { s with actionExecutedAt := some w.now }) (k := e.signal.id)
      (fun _ => rfl) (fun _ hr => hr) fun _ hr => hr
    exact this.clearDispatch i
  | crash i => exact h.clearDispatch i
  | digest => exact h

/-- A signal keeps having a verdict. -/
theorem hasVerdict_step {cfg : PipelineConfig} {w w' : World} {ev : Event} {signalId : ℕ}
    (hsound : Sound w.signals w.analyses w.dispatches) (h : HasVerdict w.signals signalId)
    (hs : step cfg w ev = some w') : HasVerdict w'.signals signalId := by
  cases step_move hs with
  | write hw =>
    have hq := hw.quiet
    rw [hq.signals]
    exact h
  | addSignal s hfresh hp ha he => exact h.append s
  | verdict i l v hlv =>
    obtain ⟨hvalid, _⟩ := hsound.analysis i _ hlv
    exact h.modify (Signal.flush_id l v) fun r _ =>
      Signal.flush_isProcessed hvalid.unprocessed (hvalid.verdict l v rfl).processed
  | finish i e hd hmay => exact h.modify (fun _ => rfl) fun _ hr => hr
  | _ => exact h

/-- After the commit of a verdict its signal has one. -/
theorem hasVerdict_commit {w : World} {i : ℕ} {l v : Signal}
    (hsound : Sound w.signals w.analyses w.dispatches)
    (hlv : w.analyses i = some (.committing l v)) :
    HasVerdict (w.commitVerdict i l v).signals l.id := by
  obtain ⟨hvalid, hrow⟩ := hsound.analysis i _ hlv
  obtain ⟨row, hrow⟩ := Option.isSome_iff_exists.mp hrow
  have hrow : Table.get Signal.id w.signals l.id = some row := hrow
  refine ⟨Signal.flush l v row, ?_,
    Signal.flush_isProcessed hvalid.unprocessed (hvalid.verdict l v rfl).processed⟩
  show Table.get Signal.id (Table.modify Signal.id w.signals l.id (Signal.flush l v)) l.id = _
  rw [Table.get_modify_self (Signal.flush_id l v), hrow]
  rfl

end World
end LeadPulse
