import LeadPulse.Lib.Run
import LeadPulse.Scoring.LeadScore

/-!
# The pin on monitoring

`update_company` (`api/v1/companies.py`) pins `monitor` when a user sets it, and `score_company`
leaves a pinned company alone. Both load the row, and a commit writes the columns that have
changed since the load, at READ COMMITTED: what somebody else has committed in between is neither
seen nor checked.

So a scoring run that has loaded the company before a user's choice is committed may still
overwrite it, `stale_overrides`. `choiceKept_iff` says exactly when: the run has seen the company
unpinned, wants to change what it has seen, and the user's choice is what it has seen.
-/

namespace LeadPulse
namespace Scoring

open Domain

/-! ## One row -/

/-- The columns of the row after an `UPDATE` of what has changed between `loaded` and
`modified`. -/
def ScoredCompany.flush (loaded modified row : ScoredCompany) : ScoredCompany where
  status := pick (·.status)
  industry := pick (·.industry)
  employeeCount := pick (·.employeeCount)
  location := pick (·.location)
  technologies := pick (·.technologies)
  apps := pick (·.apps)
  icpScore := pick (·.icpScore)
  leadScore := pick (·.leadScore)
  scoreBreakdown := pick (·.scoreBreakdown)
  scoreUpdatedAt := pick (·.scoreUpdatedAt)
  monitor := pick (·.monitor)
  monitorPinned := pick (·.monitorPinned)
where
  pick {β : Type} [DecidableEq β] (field : ScoredCompany → β) : β :=
    if field modified = field loaded then field row else field modified

/-- The fields of a `CompanyUpdate` that are columns of a `ScoredCompany`. -/
structure MonitorUpdate where
  monitor : FieldUpdate Bool := .unset
  monitorPinned : FieldUpdate Bool := .unset
  status : FieldUpdate CompanyStatus := .unset
  industry : FieldUpdate (List Char) := .unset
  location : FieldUpdate (List Char) := .unset
  employeeCount : FieldUpdate ℤ := .unset
  icpScore : FieldUpdate ℚ := .unset
deriving DecidableEq, Repr

namespace MonitorUpdate

/-- A user who sets `monitor` pins it, too. -/
def pinned (body : MonitorUpdate) : MonitorUpdate :=
  if body.monitor.isSet ∧ ¬ body.monitorPinned.isSet then
    { body with monitorPinned := .set (some true) }
  else body

/-- The value of a column that takes no null: `none` is an `IntegrityError`. -/
def required {α : Type} (stored : α) (field : FieldUpdate α) : Option α :=
  field.apply (some stored)

/-- The loaded company with the fields of the body set. -/
def modified (body : MonitorUpdate) (loaded : ScoredCompany) : Option ScoredCompany := do
  let monitor ← required loaded.monitor body.monitor
  let monitorPinned ← required loaded.monitorPinned body.monitorPinned
  let status ← required loaded.status body.status
  return { loaded with
    monitor := monitor
    monitorPinned := monitorPinned
    status := status
    industry := body.industry.apply loaded.industry
    location := body.location.apply loaded.location
    employeeCount := body.employeeCount.apply loaded.employeeCount
    icpScore := body.icpScore.apply loaded.icpScore }

end MonitorUpdate

/-! ## Concurrent transactions -/

/-- A run of `score_company`: what it has loaded, and whether no user's choice had been committed
by then. -/
structure ScoringRun where
  loaded : ScoredCompany
  beforeChoice : Bool
deriving DecidableEq, Repr

/-- A company, and the transactions that have loaded it. -/
structure PinState where
  row : ScoredCompany
  runs : List ScoringRun := []
  /-- The requests to `update_company`, with their bodies and what they have loaded. -/
  requests : List (MonitorUpdate × ScoredCompany) := []
  /-- What `monitor` was after the latest commit of a user who has set it. -/
  choice : Option Bool := none
deriving DecidableEq, Repr

inductive PinAction where
  /-- A scoring run loads the company. -/
  | loadRun
  /-- Run `i` commits, with the profile, the dimensions and the time it has found. -/
  | commitRun (i : ℕ) (profile : Option ICPProfile) (d : Dimensions) (now : Time)
  /-- Run `i` ends with an exception. -/
  | failRun (i : ℕ)
  /-- A request that sets `monitor` and not `monitor_pinned` loads the company. -/
  | loadRequest (body : MonitorUpdate)
  /-- Request `i` commits. -/
  | commitRequest (i : ℕ)
  /-- Request `i` is turned down, or its session is rolled back. -/
  | failRequest (i : ℕ)
deriving DecidableEq, Repr

namespace PinState

def init (row : ScoredCompany) : PinState := { row := row }

/-- A request finds no archived company; a null for a column that takes none fails at the
commit. -/
def step (U : Unicode) (s : PinState) : PinAction → Option PinState
  | .loadRun =>
    some { s with runs := s.runs ++ [{ loaded := s.row, beforeChoice := s.choice.isNone }] }
  | .commitRun i profile d now => s.runs[i]?.map fun run =>
      { s with row := run.loaded.flush (scoreCompany U profile d now run.loaded) s.row
               runs := s.runs.eraseIdx i }
  | .failRun i => s.runs[i]?.map fun _ => { s with runs := s.runs.eraseIdx i }
  | .loadRequest body =>
    if body.monitor.isSet ∧ ¬ body.monitorPinned.isSet then
      if s.row.status = .archived then some s
      else some { s with requests := s.requests ++ [(body, s.row)] }
    else none
  | .commitRequest i => s.requests[i]?.map fun x =>
      match x.1.pinned.modified x.2 with
      | none => { s with requests := s.requests.eraseIdx i }
      | some modified =>
        let row := x.2.flush modified s.row
        { s with row := row, requests := s.requests.eraseIdx i, choice := some row.monitor }
  | .failRequest i => s.requests[i]?.map fun _ => { s with requests := s.requests.eraseIdx i }

/-- The company is monitored as the user has chosen, once a choice has been committed. -/
def ChoiceKept (s : PinState) : Prop := ∀ v ∈ s.choice, s.row.monitor = v

/-- The verdict of a scoring run on a company it sees unpinned. -/
def verdict (U : Unicode) (profile : Option ICPProfile) (loaded : ScoredCompany) : Bool :=
  monitorThreshold ≤ roundHundredth (calcIcpFit U profile loaded)

/-- After a user's choice a scoring run commits that has loaded the company before, and unpinned:
it wants `monitor` to be other than it was loaded, and other than it is now. -/
def Overrides (U : Unicode) (s : PinState) : PinAction → Prop
  | .commitRun i profile _ _ => s.choice.isSome = true ∧ ∃ run ∈ s.runs[i]?,
      run.beforeChoice = true ∧ run.loaded.monitorPinned = false ∧
        verdict U profile run.loaded ≠ run.loaded.monitor ∧
          verdict U profile run.loaded ≠ s.row.monitor
  | _ => False

/-! ## The columns after a commit -/

variable {U : Unicode}

/-- A scoring run never touches the pin. -/
theorem flush_scoreCompany_monitorPinned (profile : Option ICPProfile) (d : Dimensions)
    (now : Time) (loaded row : ScoredCompany) :
    (loaded.flush (scoreCompany U profile d now loaded) row).monitorPinned = row.monitorPinned :=
  if_pos rfl

theorem flush_scoreCompany_monitor (profile : Option ICPProfile) (d : Dimensions) (now : Time)
    (loaded row : ScoredCompany) :
    (loaded.flush (scoreCompany U profile d now loaded) row).monitor =
      if loaded.monitorPinned = true ∨ verdict U profile loaded = loaded.monitor then row.monitor
      else verdict U profile loaded := by
  show (if (if loaded.monitorPinned = true then loaded.monitor else verdict U profile loaded) =
      loaded.monitor then row.monitor
    else if loaded.monitorPinned = true then loaded.monitor else verdict U profile loaded) = _
  by_cases hpin : loaded.monitorPinned = true
  · simp [hpin]
  · simp [hpin]

/-- A request that sets `monitor` leaves the company pinned, if it has been pinned for those who
have seen it so. -/
theorem modified_monitorPinned {body : MonitorUpdate} {loaded modified : ScoredCompany}
    (hset : body.monitor.isSet = true) (hunset : body.monitorPinned.isSet = false)
    (h : body.pinned.modified loaded = some modified) : modified.monitorPinned = true := by
  have hbody : body.pinned = { body with monitorPinned := .set (some true) } := by
    unfold MonitorUpdate.pinned
    rw [if_pos ⟨hset, by simp [hunset]⟩]
  rw [hbody] at h
  simp only [MonitorUpdate.modified, MonitorUpdate.required, FieldUpdate.apply,
    Option.bind_eq_bind, Option.bind_eq_some_iff, Option.pure_def, Option.some.injEq] at h
  obtain ⟨_, _, pinned, hpinned, _, _, rfl⟩ := h
  exact hpinned.symm

/-! ## The invariant -/

structure Inv (s : PinState) : Prop where
  kept : s.ChoiceKept
  /-- A choice has pinned the company. -/
  pinned : s.choice.isSome = true → s.row.monitorPinned = true
  /-- Who loads the company after a choice sees it pinned. -/
  runs : ∀ run ∈ s.runs, run.beforeChoice = false → run.loaded.monitorPinned = true
  /-- The requests set `monitor` only, and nobody has undone a pin they have seen. -/
  requests : ∀ x ∈ s.requests, x.1.monitor.isSet = true ∧ x.1.monitorPinned.isSet = false ∧
    (x.2.monitorPinned = true → s.row.monitorPinned = true)

theorem inv_init (row : ScoredCompany) : Inv (init row) where
  kept := fun _ hv => nomatch hv
  pinned := fun h => nomatch h
  runs := fun _ hrun => nomatch hrun
  requests := fun _ hx => nomatch hx

/-! ## One step -/

variable {s s' : PinState}

/-- A scoring run commits. -/
theorem Inv.commitRun (h : Inv s) {i : ℕ} {run : ScoringRun} (hi : s.runs[i]? = some run)
    {profile : Option ICPProfile} {d : Dimensions} {now : Time}
    (hno : ¬ Overrides U s (.commitRun i profile d now)) :
    Inv { s with row := run.loaded.flush (scoreCompany U profile d now run.loaded) s.row
                 runs := s.runs.eraseIdx i } := by
  have hpinned := flush_scoreCompany_monitorPinned (U := U) profile d now run.loaded s.row
  constructor
  · intro v hv
    have hrow := h.kept v hv
    rw [flush_scoreCompany_monitor]
    split
    · exact hrow
    · -- the run would have overridden the choice
      rename_i hwrites
      rw [not_or] at hwrites
      have hfalse : run.loaded.monitorPinned = false := by simpa using hwrites.1
      by_contra hne
      refine hno ⟨?_, run, hi, ?_, hfalse, hwrites.2, fun heq => hne (heq.trans hrow)⟩
      · rw [Option.mem_def.mp hv]
        rfl
      · by_contra hafter
        have htrue := h.runs run (List.mem_of_getElem? hi) (by simpa using hafter)
        rw [htrue] at hfalse
        cases hfalse
  · intro hchoice
    show (run.loaded.flush _ s.row).monitorPinned = true
    rw [hpinned]
    exact h.pinned hchoice
  · exact fun run' hrun' => h.runs run' (List.mem_of_mem_eraseIdx hrun')
  · intro x hx
    show _ ∧ _ ∧ (_ → (run.loaded.flush _ s.row).monitorPinned = true)
    rw [hpinned]
    exact h.requests x hx

/-- A request commits. -/
theorem Inv.commitRequest (h : Inv s) {i : ℕ} {x : MonitorUpdate × ScoredCompany}
    (hi : s.requests[i]? = some x) {modified : ScoredCompany}
    (hmod : x.1.pinned.modified x.2 = some modified) :
    Inv { s with row := x.2.flush modified s.row, requests := s.requests.eraseIdx i,
                 choice := some (x.2.flush modified s.row).monitor } := by
  obtain ⟨hset, hunset, hseen⟩ := h.requests x (List.mem_of_getElem? hi)
  have htrue := modified_monitorPinned hset hunset hmod
  have hpinned : (x.2.flush modified s.row).monitorPinned = true := by
    show (if modified.monitorPinned = x.2.monitorPinned then s.row.monitorPinned
      else modified.monitorPinned) = true
    split
    · rename_i heq
      exact hseen (heq.symm.trans htrue)
    · exact htrue
  constructor
  · exact fun v hv => Option.some.inj hv
  · exact fun _ => hpinned
  · exact h.runs
  · intro y hy
    obtain ⟨hset', hunset', _⟩ := h.requests y (List.mem_of_mem_eraseIdx hy)
    exact ⟨hset', hunset', fun _ => hpinned⟩

theorem Inv.loadRun (h : Inv s) :
    Inv { s with runs := s.runs ++ [{ loaded := s.row, beforeChoice := s.choice.isNone }] } where
  kept := h.kept
  pinned := h.pinned
  runs := fun run hrun hafter => by
    rcases List.mem_append.mp hrun with hrun | hrun
    · exact h.runs run hrun hafter
    · rw [List.mem_singleton.mp hrun] at hafter ⊢
      exact h.pinned (by simpa using hafter)
  requests := h.requests

theorem Inv.loadRequest (h : Inv s) {body : MonitorUpdate}
    (hbody : body.monitor.isSet = true ∧ ¬ body.monitorPinned.isSet = true) :
    Inv { s with requests := s.requests ++ [(body, s.row)] } where
  kept := h.kept
  pinned := h.pinned
  runs := h.runs
  requests := fun x hx => by
    rcases List.mem_append.mp hx with hx | hx
    · exact h.requests x hx
    · rw [List.mem_singleton.mp hx]
      exact ⟨hbody.1, by simpa using hbody.2, id⟩

/-- Every step that overrides no choice. -/
theorem Inv.step {a : PinAction} (h : Inv s) (hno : ¬ Overrides U s a)
    (hs : s.step U a = some s') : Inv s' := by
  cases a with
  | loadRun =>
    obtain rfl := Option.some.inj hs
    exact h.loadRun
  | commitRun i profile d now =>
    simp only [PinState.step, Option.map_eq_some_iff] at hs
    obtain ⟨run, hi, rfl⟩ := hs
    exact h.commitRun hi hno
  | failRun i =>
    simp only [PinState.step, Option.map_eq_some_iff] at hs
    obtain ⟨run, hi, rfl⟩ := hs
    exact ⟨h.kept, h.pinned, fun run' hrun' => h.runs run' (List.mem_of_mem_eraseIdx hrun'),
      h.requests⟩
  | loadRequest body =>
    simp only [PinState.step] at hs
    split at hs
    · rename_i hbody
      split at hs
      · obtain rfl := Option.some.inj hs
        exact h
      · obtain rfl := Option.some.inj hs
        exact h.loadRequest hbody
    · cases hs
  | commitRequest i =>
    simp only [PinState.step, Option.map_eq_some_iff] at hs
    obtain ⟨x, hi, rfl⟩ := hs
    split
    · exact ⟨h.kept, h.pinned, h.runs, fun y hy => h.requests y (List.mem_of_mem_eraseIdx hy)⟩
    · rename_i modified hmod
      exact h.commitRequest hi hmod
  | failRequest i =>
    simp only [PinState.step, Option.map_eq_some_iff] at hs
    obtain ⟨x, hi, rfl⟩ := hs
    exact ⟨h.kept, h.pinned, h.runs, fun y hy => h.requests y (List.mem_of_mem_eraseIdx hy)⟩

/-- A scoring run that does override leaves the company as the user has not chosen. -/
theorem not_choiceKept_of_overrides {a : PinAction} (h : Inv s) (hover : Overrides U s a)
    (hs : s.step U a = some s') : ¬ ChoiceKept s' := by
  cases a with
  | commitRun i profile d now =>
    obtain ⟨hchoice, run, hi, _, hunpinned, hloaded, hrow⟩ := hover
    obtain ⟨v, hv⟩ := Option.isSome_iff_exists.mp hchoice
    simp only [PinState.step, Option.mem_def.mp hi, Option.map_some, Option.some.injEq] at hs
    subst hs
    intro hkept
    have hnow := hkept v hv
    have hwrites : ¬ (run.loaded.monitorPinned = true ∨
        verdict U profile run.loaded = run.loaded.monitor) := by
      rw [not_or, hunpinned]
      exact ⟨Bool.false_ne_true, hloaded⟩
    rw [flush_scoreCompany_monitor, if_neg hwrites, ← h.kept v hv] at hnow
    exact hrow hnow
  | loadRun => exact hover.elim
  | failRun i => exact hover.elim
  | loadRequest body => exact hover.elim
  | commitRequest i => exact hover.elim
  | failRequest i => exact hover.elim

/-! ## Whole runs -/

/-- In a run of concurrent transactions the users' choices are kept in every state exactly when no
stale scoring run overrides one. -/
theorem choiceKept_iff (U : Unicode) (row : ScoredCompany) (as : List PinAction) :
    Run.AllStates (step U) ChoiceKept (init row) as ↔
      Run.AllSteps (step U) (fun s a => ¬ Overrides U s a) (init row) as :=
  Run.allStates_iff_allSteps (fun _ (h : Inv _) => h.kept) (fun _ _ _ h hno hs => h.step hno hs)
    (fun _ _ _ h hover hs => not_choiceKept_of_overrides h (not_not.mp hover) hs) (inv_init row) as

/-- The company is monitored, and its score has fallen. A user asks for it to stay monitored while
a scoring run is under way, which then turns `monitor` off. -/
theorem stale_overrides : ¬ Run.AllStates (step .ascii) ChoiceKept
    (init { icpScore := some 90, monitor := true })
    [.loadRun, .loadRequest { monitor := .set (some true) }, .commitRequest 0,
      .commitRun 0 none { signalStrength := 0, contactQuality := 0, recency := 0 } 0] :=
  Run.not_allStates (q := fun s => s.choice.any (· ≠ s.row.monitor))
    (fun s hs => by
      cases hchoice : s.choice with
      | none => rfl
      | some v => simpa using (hs v hchoice).symm)
    (by decide +kernel)

end PinState
end Scoring
end LeadPulse
