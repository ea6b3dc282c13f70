import LeadPulse.Jobs.Lifecycle
import LeadPulse.Lib.Run

/-!
# Finished jobs

A job that is `COMPLETED` or `FAILED` keeps its status as long as no session overturns it: no
commit sets the status of a finished job to another one. What an event does to the rows is one
of four things (`Effect`); the step lemmas go through these.

By `overturnsNone_of_undisturbed` that takes an attempt that finds its job finished, as one that is
retried, delivered again or late does, or a change of the status between the query of a session and
its commit.
-/

namespace LeadPulse
namespace Jobs

variable {w w' : World} {e : Event} {i : ℕ} {worker : Worker} {l m r : Job}

/-! ## The property and its condition -/

/-- A later state has no other status for a job that was finished. -/
def FinishedKept (w w' : World) : Prop :=
  ∀ r ∈ w.jobs, ∀ r' ∈ w'.jobs, r'.id = r.id → r.Terminal → r'.status = r.status

/-- A `COMPLETED` job has no error and a `RUNNING` one no time of completion. -/
def ColumnsAgree (w : World) : Prop :=
  ∀ r ∈ w.jobs, (r.status = .completed → r.errorMessage = none) ∧
    (r.status = .running → r.completedAt = none)

/-- The lifecycle of the jobs in a run from the empty table. -/
def Lifecycle (t : Time) (events : List Event) : Prop :=
  Run.AllPairs World.step FinishedKept (World.init t) events ∧
    Run.AllStates World.step ColumnsAgree (World.init t) events

/-- The rows that an event commits, as loaded and as modified. -/
def World.committed (w : World) : Event → List (Job × Job)
  | .commit i => w.writes i
  | _ => []

/-- The event commits no status to a job that is finished in another one. -/
def OverturnsNone (w : World) (e : Event) : Prop :=
  ∀ p ∈ w.committed e, ∀ r ∈ w.jobs, r.id = p.1.id → r.Terminal → p.2.status ≠ p.1.status →
    p.2.status = r.status

instance (w : World) (e : Event) : Decidable (OverturnsNone w e) :=
  inferInstanceAs (Decidable (∀ p ∈ w.committed e, ∀ r ∈ w.jobs, _ → _ → _ → _))

/-! ## Writing back a row -/

/-- What a session may have made of a row it has loaded. -/
inductive IsWrite (l m : Job) : Prop where
  | running (status : m.status = .running) (completedAt : m.completedAt = l.completedAt)
    (errorMessage : m.errorMessage = l.errorMessage)
  | completed (status : m.status = .completed) (errorMessage : m.errorMessage = l.errorMessage)
  | failed (status : m.status = .failed)

/-- The rows that a worker has loaded. -/
def Worker.loaded : Worker → List Job
  | dispatching job => [job]
  | undispatched _ job => [job]
  | updated _ _ loaded _ => [loaded]
  | cleaningRunning _ stale => stale
  | cleaned _ stale timedOut => stale ++ timedOut
  | _ => []

theorem isWrite_of_writes {p : Job × Job} (h : p ∈ worker.writes) :
    p.1 ∈ worker.loaded ∧ IsWrite p.1 p.2 := by
  unfold Worker.writes at h
  split at h
  · obtain rfl := List.mem_singleton.mp h
    exact ⟨List.mem_singleton.mpr rfl, .failed rfl⟩
  · next update l now =>
    obtain rfl := List.mem_singleton.mp h
    refine ⟨List.mem_singleton.mpr rfl, ?_⟩
    cases update with
    | running => exact .running rfl rfl rfl
    | completed summary => exact .completed rfl rfl
    | failed error retryable => exact .failed rfl
  · rcases List.mem_append.mp h with h | h
    · obtain ⟨j, hj, rfl⟩ := List.mem_map.mp h
      exact ⟨List.mem_append_left _ hj, .failed rfl⟩
    · obtain ⟨j, hj, rfl⟩ := List.mem_map.mp h
      exact ⟨List.mem_append_right _ hj, .failed rfl⟩
  · cases h

/-- What holds of the columns of a row besides: a job that is not finished has neither an error
nor a time of completion. -/
structure Job.Settled (r : Job) : Prop where
  completed : r.status = .completed → r.errorMessage = none
  unfinished : ¬ r.Terminal → r.completedAt = none ∧ r.errorMessage = none

theorem flush_status_of_eq (h : m.status = l.status) : (Job.flush l m r).status = r.status :=
  if_pos h

theorem flush_status_of_ne (h : m.status ≠ l.status) : (Job.flush l m r).status = m.status :=
  if_neg h

theorem flush_errorMessage (h : m.errorMessage = l.errorMessage) :
    (Job.flush l m r).errorMessage = r.errorMessage := if_pos h

theorem flush_completedAt (h : m.completedAt = l.completedAt) :
    (Job.flush l m r).completedAt = r.completedAt := if_pos h

theorem not_terminal_of_running (h : r.status = .running) : ¬ r.Terminal := by
  unfold Job.Terminal
  rw [h]
  simp

section

/-- A write of a final status ends in that status. -/
theorem flush_status_of_terminal (hl : l.Terminal → r.status = l.status) (hterm : m.Terminal) :
    (Job.flush l m r).status = m.status := by
  by_cases hne : m.status = l.status
  · rw [flush_status_of_eq hne, hne]
    apply hl
    unfold Job.Terminal at hterm ⊢
    rw [← hne]
    exact hterm
  · exact flush_status_of_ne hne

variable (hl : l.Terminal → r.status = l.status)
  (hm : r.Terminal → m.status ≠ l.status → m.status = r.status)

include hm

/-- A write that overturns nothing keeps the status of a finished job. -/
theorem flush_kept (hr : r.Terminal) : (Job.flush l m r).status = r.status := by
  by_cases hne : m.status = l.status
  · exact flush_status_of_eq hne
  · rw [flush_status_of_ne hne]
    exact hm hr hne

include hl

theorem flush_settled (hw : IsWrite l m) (hr : r.Settled) : (Job.flush l m r).Settled := by
  cases hw with
  | running hstatus hdone herror =>
    by_cases hne : m.status = l.status
    · -- only the time of the start is written
      have hsame := flush_status_of_eq (r := r) hne
      refine ⟨fun hc => ?_, fun hn => ?_⟩
      · rw [flush_errorMessage herror]
        exact hr.completed (hsame ▸ hc)
      · rw [flush_errorMessage herror, flush_completedAt hdone]
        refine hr.unfinished fun hterm => hn ?_
        unfold Job.Terminal
        rw [hsame]
        exact hterm
    · have hterm : ¬ r.Terminal := by
        intro hterm
        have hrunning := (hm hterm hne).symm.trans hstatus
        exact not_terminal_of_running hrunning hterm
      refine ⟨fun hc => ?_, fun _ => ?_⟩
      · rw [flush_status_of_ne hne, hstatus] at hc
        cases hc
      · rw [flush_errorMessage herror, flush_completedAt hdone]
        exact hr.unfinished hterm
  | completed hstatus herror =>
    have hfinal := flush_status_of_terminal hl (Or.inl hstatus)
    refine ⟨fun _ => ?_, fun hn => absurd (Or.inl (hfinal.trans hstatus)) hn⟩
    rw [flush_errorMessage herror]
    by_cases hterm : r.Terminal
    · apply hr.completed
      rw [← flush_kept hm hterm, hfinal, hstatus]
    · exact (hr.unfinished hterm).2
  | failed hstatus =>
    have hfinal := (flush_status_of_terminal hl (Or.inr hstatus)).trans hstatus
    refine ⟨fun hc => ?_, fun hn => absurd (Or.inr hfinal) hn⟩
    rw [hfinal] at hc
    cases hc

end

/-! ## What an event does to the rows -/

/-- A worker has loaded the row. -/
def World.Held (w : World) (l : Job) : Prop :=
  ∃ i worker, w.workers i = some worker ∧ l ∈ worker.loaded

theorem held_clearWorker (h : (w.clearWorker i).Held l) : w.Held l := by
  obtain ⟨j, worker, hj, hl⟩ := h
  change Function.update w.workers i none j = some worker at hj
  by_cases hij : j = i
  · subst hij
    rw [Function.update_self] at hj
    cases hj
  · rw [Function.update_of_ne hij] at hj
    exact ⟨j, worker, hj, hl⟩

theorem held_setWorker (h : (w.setWorker i worker).Held l) : w.Held l ∨ l ∈ worker.loaded := by
  obtain ⟨j, worker', hj, hl⟩ := h
  change Function.update w.workers i (some worker) j = some worker' at hj
  by_cases hij : j = i
  · subst hij
    rw [Function.update_self] at hj
    cases hj
    exact Or.inr hl
  · rw [Function.update_of_ne hij] at hj
    exact Or.inl ⟨j, worker', hj, hl⟩

/-- A worker that has loaded no row holds none. -/
theorem held_setWorker_of_nil (hworker : worker.loaded = [])
    (h : (w.setWorker i worker).Held l) : w.Held l := by
  apply (held_setWorker h).resolve_right
  rw [hworker]
  exact List.not_mem_nil

/-- The event loads the row, for an attempt or for a cleanup, which loads unfinished ones only. -/
def World.Fetches (w : World) (e : Event) (l : Job) : Prop :=
  ∃ i, e = .load i ∧ (¬ l.Terminal ∨
    ∃ task update, w.workers i = some (.updating task update) ∧ l.id = task.jobId)

/-- The four things that an event can do to the rows. -/
inductive Effect (w : World) : Event → World → Prop where
  /-- Nothing; a worker may have loaded rows of the table. -/
  | quiet {e : Event} {w' : World} (jobs : w'.jobs = w.jobs) (nextId : w'.nextId = w.nextId)
    (held : ∀ l, w'.Held l → w.Held l ∨ l ∈ w.jobs ∧ w.Fetches e l) : Effect w e w'
  | create {e : Event} {w' : World} (job : Job) (id : job.id = w.nextId)
    (status : job.status = .pending) (settled : job.Settled)
    (jobs : w'.jobs = w.jobs ++ [job]) (nextId : w'.nextId = w.nextId + 1)
    (held : ∀ l, w'.Held l → w.Held l ∨ l = job) : Effect w e w'
  | commit {w' : World} (i : ℕ) (jobs : w'.jobs = w.flushed (w.writes i))
    (nextId : w'.nextId = w.nextId) (held : ∀ l, w'.Held l → w.Held l) : Effect w (.commit i) w'
  | delete {w' : World} (jobId : ℕ) (jobs : w'.jobs = Table.remove Job.id w.jobs jobId)
    (nextId : w'.nextId = w.nextId) (held : ∀ l, w'.Held l → w.Held l) :
    Effect w (.deleteJob jobId) w'

theorem attemptRaised_jobs (w : World) (i : ℕ) (task : Task) (retryable : Bool) :
    (w.attemptRaised i task retryable).jobs = w.jobs ∧
      (w.attemptRaised i task retryable).nextId = w.nextId ∧
      ∀ l, (w.attemptRaised i task retryable).Held l → w.Held l := by
  unfold World.attemptRaised
  dsimp only
  split <;> exact ⟨rfl, rfl, fun l hl => held_clearWorker hl⟩

theorem afterUpdate_jobs (w : World) (i : ℕ) (task : Task) (update : JobUpdate) :
    (w.afterUpdate i task update).jobs = w.jobs ∧
      (w.afterUpdate i task update).nextId = w.nextId ∧
      ∀ l, (w.afterUpdate i task update).Held l → w.Held l := by
  cases update with
  | running =>
    refine ⟨rfl, rfl, fun l hl => (held_setWorker hl).resolve_right fun h => ?_⟩
    cases h
  | completed summary => exact ⟨rfl, rfl, fun l hl => held_clearWorker hl⟩
  | failed error retryable => exact attemptRaised_jobs w i task retryable

theorem updateRaised_jobs (w : World) (i : ℕ) (task : Task) (error : List Char) (retryable : Bool)
    (update : JobUpdate) :
    (w.updateRaised i task error retryable update).jobs = w.jobs ∧
      (w.updateRaised i task error retryable update).nextId = w.nextId ∧
      ∀ l, (w.updateRaised i task error retryable update).Held l → w.Held l := by
  cases update with
  | running => exact attemptRaised_jobs w i task retryable
  | completed summary =>
    refine ⟨rfl, rfl, fun l hl => (held_setWorker hl).resolve_right fun h => ?_⟩
    cases h
  | failed error' retryable' => exact attemptRaised_jobs w i task retryable

/-- A job that a cleanup selects is not finished. -/
theorem fetches_of_status (hstatus : l.status = .pending ∨ l.status = .running) :
    w.Fetches (.load i) l := by
  refine ⟨i, rfl, .inl fun hterm => ?_⟩
  unfold Job.Terminal at hterm
  rcases hstatus with hstatus | hstatus <;> rw [hstatus] at hterm <;> simp at hterm

theorem load_effect (hworker : w.workers i = some worker) (h : w.load i worker = some w') :
    w'.jobs = w.jobs ∧ w'.nextId = w.nextId ∧
      ∀ l, w'.Held l → w.Held l ∨ l ∈ w.jobs ∧ w.Fetches (.load i) l := by
  unfold World.load at h
  split at h
  · next task update =>
    split at h
    · obtain rfl := Option.some.inj h
      obtain ⟨hjobs, hnext, hheld⟩ := afterUpdate_jobs w i task update
      exact ⟨hjobs, hnext, fun l hl => Or.inl (hheld l hl)⟩
    · next job hjob =>
      obtain rfl := Option.some.inj h
      refine ⟨rfl, rfl, fun l hl => (held_setWorker hl).imp_right fun hmem => ?_⟩
      rw [List.mem_singleton.mp hmem]
      exact ⟨Table.mem_of_get hjob, i, rfl, .inr ⟨task, update, hworker, Table.key_of_get hjob⟩⟩
  · obtain rfl := Option.some.inj h
    refine ⟨rfl, rfl, fun l hl => (held_setWorker hl).imp_right fun hmem => ?_⟩
    obtain ⟨hmem, hstale⟩ := List.mem_filter.mp hmem
    exact ⟨hmem, fetches_of_status (.inl (of_decide_eq_true hstale).1)⟩
  · next now stale =>
    obtain rfl := Option.some.inj h
    refine ⟨rfl, rfl, fun l hl => ?_⟩
    rcases held_setWorker hl with hl | hmem
    · exact Or.inl hl
    · rcases List.mem_append.mp hmem with hmem | hmem
      · exact Or.inl ⟨i, _, hworker, hmem⟩
      · obtain ⟨hmem, hstale⟩ := List.mem_filter.mp hmem
        exact Or.inr ⟨hmem, fetches_of_status (.inr (of_decide_eq_true hstale).1)⟩
  · cases h

theorem commit_effect (hworker : w.workers i = some worker) (h : w.commit i worker = some w') :
    w'.jobs = w.flushed (w.writes i) ∧ w'.nextId = w.nextId ∧ ∀ l, w'.Held l → w.Held l := by
  have hwrites : w.writes i = worker.writes := by
    unfold World.writes
    rw [hworker]
    rfl
  rw [hwrites]
  unfold World.commit at h
  split at h
  · dsimp only at h
    split at h
    · next task update loaded now _ =>
      obtain rfl := Option.some.inj h
      exact afterUpdate_jobs { w with jobs := w.flushed [(loaded, update.apply now loaded)] } i
        task update
    · obtain rfl := Option.some.inj h
      exact ⟨rfl, rfl, fun l hl => held_clearWorker hl⟩
    · obtain rfl := Option.some.inj h
      exact ⟨rfl, rfl, fun l hl => held_clearWorker hl⟩
    · cases h
  · cases h

theorem raise_effect (w : World) (i : ℕ) (error : List Char) (retryable : Bool) (worker : Worker) :
    (w.raise i error retryable worker).jobs = w.jobs ∧
      (w.raise i error retryable worker).nextId = w.nextId ∧
      ∀ l, (w.raise i error retryable worker).Held l → w.Held l := by
  unfold World.raise
  split
  · exact updateRaised_jobs w i _ error retryable _
  · exact updateRaised_jobs w i _ error retryable _
  · exact ⟨rfl, rfl, fun l hl => held_clearWorker hl⟩

theorem step_effect (h : w.step e = some w') : Effect w e w' := by
  cases e with
  | tick d =>
    simp only [World.step, Option.ite_none_right_eq_some, Option.some.injEq] at h
    obtain ⟨-, rfl⟩ := h
    exact .quiet rfl rfl fun l hl => Or.inl hl
  | create i companyId =>
    simp only [World.step, Option.ite_none_right_eq_some, Option.some.injEq] at h
    obtain ⟨-, rfl⟩ := h
    refine .create { id := w.nextId, companyId := companyId, createdAt := w.now } rfl rfl ?_ rfl rfl
      fun l hl => (held_setWorker hl).imp_right List.mem_singleton.mp
    exact ⟨fun hc => rfl, fun _ => ⟨rfl, rfl⟩⟩
  | dispatch i =>
    simp only [World.step] at h
    split at h
    · obtain rfl := Option.some.inj h
      exact .quiet rfl rfl fun l hl => Or.inl (held_clearWorker hl)
    · cases h
  | dispatchRaises i pipeline delivered =>
    simp only [World.step] at h
    split at h
    · next job hworker =>
      obtain rfl := Option.some.inj h
      refine .quiet rfl rfl fun l hl => Or.inl ?_
      rcases held_setWorker hl with hl | hl
      · exact hl
      · exact ⟨i, _, hworker, hl⟩
    · cases h
  | deliver i n =>
    simp only [World.step] at h
    split at h
    · obtain rfl := Option.some.inj h
      exact .quiet rfl rfl fun l hl => Or.inl (held_setWorker_of_nil rfl hl)
    · cases h
  | acknowledge n =>
    obtain rfl := Option.some.inj h
    exact .quiet rfl rfl fun l hl => Or.inl hl
  | startCleanup i =>
    simp only [World.step, Option.ite_none_right_eq_some, Option.some.injEq] at h
    obtain ⟨-, rfl⟩ := h
    exact .quiet rfl rfl fun l hl => Or.inl (held_setWorker_of_nil rfl hl)
  | load i =>
    obtain ⟨worker, hworker, h⟩ := Option.bind_eq_some_iff.mp h
    obtain ⟨hjobs, hnext, hheld⟩ := load_effect hworker h
    exact .quiet hjobs hnext hheld
  | commit i =>
    obtain ⟨worker, hworker, h⟩ := Option.bind_eq_some_iff.mp h
    obtain ⟨hjobs, hnext, hheld⟩ := commit_effect hworker h
    exact .commit i hjobs hnext hheld
  | raise i error retryable =>
    obtain ⟨worker, hworker, rfl⟩ := Option.map_eq_some_iff.mp h
    obtain ⟨hjobs, hnext, hheld⟩ := raise_effect w i error retryable worker
    exact .quiet hjobs hnext fun l hl => Or.inl (hheld l hl)
  | outcome i result =>
    simp only [World.step] at h
    split at h
    · obtain rfl := Option.some.inj h
      exact .quiet rfl rfl fun l hl => Or.inl (held_setWorker_of_nil rfl hl)
    · obtain rfl := Option.some.inj h
      exact .quiet rfl rfl fun l hl => Or.inl (held_setWorker_of_nil rfl hl)
    · cases h
  | kill i =>
    obtain rfl := Option.some.inj h
    exact .quiet rfl rfl fun l hl => Or.inl (held_clearWorker hl)
  | deleteJob jobId =>
    obtain rfl := Option.some.inj h
    exact .delete jobId rfl rfl fun l hl => hl

/-! ## The invariant -/

/-- A row that has been loaded finished is still in that status. -/
def Stands (jobs : List Job) (nextId : ℕ) (l : Job) : Prop :=
  l.id < nextId ∧ (l.Terminal → ∀ r ∈ jobs, r.id = l.id → r.status = l.status)

structure Sound (w : World) : Prop where
  keyed : Table.Keyed Job.id w.jobs
  ids : ∀ r ∈ w.jobs, r.id < w.nextId
  settled : ∀ r ∈ w.jobs, r.Settled
  stands : ∀ l, w.Held l → Stands w.jobs w.nextId l

theorem sound_init (t : Time) : Sound (World.init t) where
  keyed := List.nodup_nil
  ids r hr := by cases hr
  settled r hr := by cases hr
  stands := by
    rintro l ⟨i, worker, hworker, -⟩
    cases hworker

/-- The order on the states: rows are not made anew, and finished jobs keep their status. -/
structure Later (w w' : World) : Prop where
  nextId_le : w.nextId ≤ w'.nextId
  old : ∀ r' ∈ w'.jobs, r'.id < w.nextId → ∃ r ∈ w.jobs, r.id = r'.id
  kept : FinishedKept w w'

theorem Later.refl (hw : Sound w) : Later w w where
  nextId_le := le_rfl
  old r hr _ := ⟨r, hr, rfl⟩
  kept r hr r' hr' hid _ := by
    rw [List.inj_on_of_nodup_map hw.keyed hr' hr hid]

theorem Later.trans {w'' : World} (hw : Sound w) (h : Later w w') (h' : Later w' w'') :
    Later w w'' where
  nextId_le := h.nextId_le.trans h'.nextId_le
  old r'' hr'' hlt := by
    obtain ⟨r', hr', hid⟩ := h'.old r'' hr'' (hlt.trans_le h.nextId_le)
    obtain ⟨r, hr, hid'⟩ := h.old r' hr' (hid ▸ hlt)
    exact ⟨r, hr, hid'.trans hid⟩
  kept r hr r'' hr'' hid hterm := by
    have hlt : r''.id < w'.nextId := by
      rw [hid]
      exact (hw.ids r hr).trans_le h.nextId_le
    -- the row was there in between, in the same status
    obtain ⟨r', hr', hid'⟩ := h'.old r'' hr'' hlt
    have hstatus := h.kept r hr r' hr' (hid'.trans hid) hterm
    rw [← hstatus]
    refine h'.kept r' hr' r'' hr'' hid'.symm ?_
    unfold Job.Terminal at hterm ⊢
    rw [hstatus]
    exact hterm

/-- The rows of a commit: a row that no write is for stays as it is. -/
theorem mem_flushed {writes : List (Job × Job)} {r' : Job} (h : r' ∈ w.flushed writes) :
    ∃ r ∈ w.jobs, r' = r ∨ ∃ p ∈ writes, p.1.id = r.id ∧ r' = Job.flush p.1 p.2 r := by
  obtain ⟨r, hr, rfl⟩ := List.mem_map.mp h
  refine ⟨r, hr, ?_⟩
  cases hfind : writes.find? fun p => p.1.id = r.id with
  | none => exact Or.inl rfl
  | some p =>
    have hid := List.find?_some hfind
    exact Or.inr ⟨p, List.mem_of_find?_eq_some hfind, of_decide_eq_true hid, rfl⟩

theorem flushed_ids (w : World) (writes : List (Job × Job)) :
    (w.flushed writes).map Job.id = w.jobs.map Job.id := by
  unfold World.flushed
  rw [List.map_map]
  refine List.map_congr_left fun r _ => ?_
  rw [Function.comp_apply]
  split <;> rfl

theorem held_of_mem_writes {p : Job × Job} (h : p ∈ w.writes i) : w.Held p.1 ∧ IsWrite p.1 p.2 := by
  unfold World.writes at h
  cases hworker : w.workers i with
  | none =>
    rw [hworker] at h
    cases h
  | some worker =>
    rw [hworker] at h
    obtain ⟨hloaded, hwrite⟩ := isWrite_of_writes h
    exact ⟨⟨i, worker, hworker, hloaded⟩, hwrite⟩

/-- What a commit that overturns nothing does to one row. -/
theorem row_of_commit (hw : Sound w) (hnone : OverturnsNone w (.commit i)) {r' : Job}
    (h : r' ∈ w.flushed (w.writes i)) :
    ∃ r ∈ w.jobs, r'.id = r.id ∧ r'.Settled ∧ (r.Terminal → r'.status = r.status) := by
  obtain ⟨r, hr, rfl | ⟨p, hp, hid, rfl⟩⟩ := mem_flushed h
  · exact ⟨r', hr, rfl, hw.settled r' hr, fun _ => rfl⟩
  · obtain ⟨hheld, hwrite⟩ := held_of_mem_writes hp
    have hl : p.1.Terminal → r.status = p.1.status :=
      fun hterm => (hw.stands p.1 hheld).2 hterm r hr hid.symm
    have hm : r.Terminal → p.2.status ≠ p.1.status → p.2.status = r.status :=
      hnone p hp r hr hid.symm
    exact ⟨r, hr, rfl, flush_settled hl hm hwrite (hw.settled r hr), flush_kept hm⟩

theorem later_commit (hw : Sound w) (hnone : OverturnsNone w (.commit i))
    (hjobs : w'.jobs = w.flushed (w.writes i)) (hnext : w'.nextId = w.nextId) : Later w w' where
  nextId_le := hnext.ge
  old r' hr' _ := by
    rw [hjobs] at hr'
    obtain ⟨r, hr, hid, -⟩ := row_of_commit hw hnone hr'
    exact ⟨r, hr, hid.symm⟩
  kept r hr r' hr' hid hterm := by
    rw [hjobs] at hr'
    obtain ⟨r₀, hr₀, hid₀, -, hkept⟩ := row_of_commit hw hnone hr'
    obtain rfl : r₀ = r := List.inj_on_of_nodup_map hw.keyed hr₀ hr (hid₀.symm.trans hid)
    exact hkept hterm

/-- What stands in the table still stands in a later one. -/
theorem Stands.later (h : Later w w') (hl : Stands w.jobs w.nextId l) :
    Stands w'.jobs w'.nextId l := by
  refine ⟨hl.1.trans_le h.nextId_le, fun hterm r' hr' hid => ?_⟩
  have hlt : r'.id < w.nextId := by
    rw [hid]
    exact hl.1
  obtain ⟨r, hr, hid'⟩ := h.old r' hr' hlt
  have hstatus := hl.2 hterm r hr (hid'.trans hid)
  rw [← hstatus]
  refine h.kept r hr r' hr' hid'.symm ?_
  unfold Job.Terminal at hterm ⊢
  rw [hstatus]
  exact hterm

theorem stands_of_mem (hw : Sound w) (h : l ∈ w.jobs) : Stands w.jobs w.nextId l := by
  refine ⟨hw.ids l h, fun _ r hr hid => ?_⟩
  rw [List.inj_on_of_nodup_map hw.keyed hr h hid]

theorem sound_step (hw : Sound w) (hnone : OverturnsNone w e) (h : w.step e = some w') :
    Sound w' ∧ Later w w' := by
  cases step_effect h with
  | quiet hjobs hnext hheld =>
    have hlater : Later w w' := by
      refine ⟨hnext.ge, fun r hr _ => ?_, fun r hr r' hr' hid _ => ?_⟩
      · rw [hjobs] at hr
        exact ⟨r, hr, rfl⟩
      · rw [hjobs] at hr'
        rw [List.inj_on_of_nodup_map hw.keyed hr' hr hid]
    refine ⟨⟨?_, ?_, ?_, fun l hl => ?_⟩, hlater⟩
    · rw [hjobs]
      exact hw.keyed
    · rw [hjobs, hnext]
      exact hw.ids
    · rw [hjobs]
      exact hw.settled
    · rcases hheld l hl with hl | ⟨hl, -⟩
      · exact (hw.stands l hl).later hlater
      · exact (stands_of_mem hw hl).later hlater
  | create job hid hstatus hsettled hjobs hnext hheld =>
    have hlater : Later w w' := by
      refine ⟨?_, fun r hr hlt => ?_, fun r hr r' hr' hid' _ => ?_⟩
      · rw [hnext]
        exact Nat.le_succ w.nextId
      · rw [hjobs] at hr
        rcases List.mem_append.mp hr with hr | hr
        · exact ⟨r, hr, rfl⟩
        · rw [List.mem_singleton.mp hr, hid] at hlt
          exact absurd hlt (lt_irrefl _)
      · rw [hjobs] at hr'
        rcases List.mem_append.mp hr' with hr' | hr'
        · rw [List.inj_on_of_nodup_map hw.keyed hr' hr hid']
        · have hlt := hw.ids r hr
          rw [← hid', List.mem_singleton.mp hr', hid] at hlt
          exact absurd hlt (lt_irrefl _)
    refine ⟨⟨?_, ?_, ?_, fun l hl => ?_⟩, hlater⟩
    · rw [hjobs]
      refine hw.keyed.append ?_
      rw [hid]
      exact Table.get_of_lt hw.ids
    · rw [hjobs, hnext]
      exact Table.lt_append hw.ids hid
    · rw [hjobs]
      intro r hr
      rcases List.mem_append.mp hr with hr | hr
      · exact hw.settled r hr
      · rw [List.mem_singleton.mp hr]
        exact hsettled
    · rcases hheld l hl with hl | rfl
      · exact (hw.stands l hl).later hlater
      · -- a job that has just been created is not finished
        refine ⟨?_, fun hterm => ?_⟩
        · rw [hid, hnext]
          exact Nat.lt_succ_self _
        · unfold Job.Terminal at hterm
          rw [hstatus] at hterm
          simp at hterm
  | commit i hjobs hnext hheld =>
    have hlater := later_commit hw hnone hjobs hnext
    refine ⟨⟨?_, ?_, ?_, fun l hl => (hw.stands l (hheld l hl)).later hlater⟩, hlater⟩
    · unfold Table.Keyed
      rw [hjobs, flushed_ids]
      exact hw.keyed
    · rw [hjobs, hnext]
      intro r' hr'
      obtain ⟨r, hr, hid, -⟩ := row_of_commit hw hnone hr'
      rw [hid]
      exact hw.ids r hr
    · rw [hjobs]
      intro r' hr'
      obtain ⟨r, hr, -, hsettled, -⟩ := row_of_commit hw hnone hr'
      exact hsettled
  | delete jobId hjobs hnext hheld =>
    have hsub {r : Job} (hr : r ∈ w'.jobs) : r ∈ w.jobs := by
      rw [hjobs] at hr
      exact List.mem_of_mem_filter hr
    have hlater : Later w w' := by
      refine ⟨hnext.ge, fun r hr _ => ⟨r, hsub hr, rfl⟩, fun r hr r' hr' hid _ => ?_⟩
      rw [List.inj_on_of_nodup_map hw.keyed (hsub hr') hr hid]
    refine ⟨⟨?_, ?_, fun r hr => hw.settled r (hsub hr), fun l hl =>
      (hw.stands l (hheld l hl)).later hlater⟩, hlater⟩
    · rw [hjobs]
      exact hw.keyed.remove
    · rw [hnext]
      exact fun r hr => hw.ids r (hsub hr)

/-! ## Runs -/

/-- If no commit overturns the status of a finished job, jobs keep to their lifecycle. -/
theorem lifecycle_of_overturnsNone (t : Time) (events : List Event)
    (h : Run.AllSteps World.step OverturnsNone (World.init t) events) : Lifecycle t events := by
  constructor
  · have hpairs : Run.AllPairs World.step Later (World.init t) events :=
      Run.AllPairs.of_inv_rel (I := Sound) (fun _ hw => Later.refl hw)
        (fun hw _ h h' => h.trans hw h') (fun _ _ _ hw hc hs => sound_step hw hc hs)
        (sound_init t) h
    exact hpairs.mono fun _ _ hlater => hlater.kept
  · have hinv : Run.AllStates World.step Sound (World.init t) events :=
      Run.AllStates.of_inv (fun _ _ _ hw hc hs => (sound_step hw hc hs).1) (sound_init t) h
    refine hinv.mono fun w hw r hr => ⟨(hw.settled r hr).completed, fun hrunning => ?_⟩
    exact ((hw.settled r hr).unfinished (not_terminal_of_running hrunning)).1

/-- An attempt finds its job finished, or the status of a row that a session commits is not the one
that it has loaded. -/
def Disturbed (w : World) : Event → Prop
  | .load i => ∃ task update, w.workers i = some (.updating task update) ∧
      ∃ r ∈ w.jobs, r.id = task.jobId ∧ r.Terminal
  | .commit i => ∃ p ∈ w.writes i, ∃ r ∈ w.jobs, r.id = p.1.id ∧ r.status ≠ p.1.status
  | _ => False

/-- No session has loaded a finished job. -/
def HeldUnfinished (w : World) : Prop := ∀ l, w.Held l → ¬ l.Terminal

theorem heldUnfinished_step (hw : HeldUnfinished w) (hc : ¬ Disturbed w e)
    (h : w.step e = some w') : HeldUnfinished w' := by
  intro l hl
  cases step_effect h with
  | quiet hjobs hnext hheld =>
    rcases hheld l hl with hl | ⟨hl, i, rfl, hunfinished | ⟨task, update, hworker, hid⟩⟩
    · exact hw l hl
    · exact hunfinished
    · exact fun hterm => hc ⟨task, update, hworker, l, hl, hid, hterm⟩
  | create job hid hstatus hsettled hjobs hnext hheld =>
    rcases hheld l hl with hl | rfl
    · exact hw l hl
    · unfold Job.Terminal
      rw [hstatus]
      simp
  | commit i hjobs hnext hheld => exact hw l (hheld l hl)
  | delete jobId hjobs hnext hheld => exact hw l (hheld l hl)

/-- A session that has loaded an unfinished job overturns nothing, as long as the status is still
the one that it has loaded. -/
theorem overturnsNone_of_heldUnfinished (hw : HeldUnfinished w) (hc : ¬ Disturbed w e) :
    OverturnsNone w e := by
  intro p hp r hr hid hterm _
  cases e with
  | commit i =>
    have hsame : r.status = p.1.status := by
      by_contra hne
      exact hc ⟨p, hp, r, hr, hid, hne⟩
    refine absurd ?_ (hw p.1 (held_of_mem_writes hp).1)
    unfold Job.Terminal at hterm ⊢
    rwa [hsame] at hterm
  | _ => exact absurd hp List.not_mem_nil

/-- No finished job is overturned in a run in which no attempt finds its job finished and no status
changes between a query and the commit. -/
theorem overturnsNone_of_undisturbed (t : Time) (events : List Event)
    (h : Run.AllSteps World.step (fun w e => ¬ Disturbed w e) (World.init t) events) :
    Run.AllSteps World.step OverturnsNone (World.init t) events := by
  refine Run.AllSteps.of_inv (I := HeldUnfinished) (fun w e w' hw hc hs =>
    ⟨heldUnfinished_step hw hc hs, overturnsNone_of_heldUnfinished hw hc⟩) ?_ h
  rintro l ⟨i, worker, hworker, -⟩
  cases hworker

/-- A job that is created, queued, worked on and completed, with a cleanup going by. -/
def completedRun : List Event :=
  [.create 0 1, .dispatch 0, .deliver 0 0, .load 0, .commit 0, .startCleanup 1, .load 1, .load 1,
   .outcome 0 (.ok "contacts=1".toList), .commit 1, .load 0, .commit 0, .acknowledge 0]

theorem lifecycle_completedRun : Lifecycle 0 completedRun :=
  lifecycle_of_overturnsNone 0 completedRun
    (Run.AllSteps.of_check (fun _ _ h => of_decide_eq_true h) (by decide +kernel))

/-- The first attempt raises a connection error and writes `FAILED`; the retry completes. -/
def retriedRun : List Event :=
  [.create 0 1, .dispatch 0, .deliver 0 0, .load 0, .commit 0,
   .outcome 0 (.error ("Connection refused".toList, true)), .load 0, .commit 0, .acknowledge 0,
   .deliver 0 0, .load 0, .commit 0, .outcome 0 (.ok "contacts=1".toList), .load 0, .commit 0]

/-- The job ends `COMPLETED` with the error of the first attempt. -/
theorem retriedRun_not_lifecycle : ¬ Lifecycle 0 retriedRun := by
  intro h
  refine Run.not_allStates (q := fun w => w.jobs.any fun r =>
    r.status = .completed ∧ r.errorMessage ≠ none) (fun w hw => ?_) ?_ h.2
  · rw [Bool.eq_false_iff]
    intro hany
    obtain ⟨r, hr, hq⟩ := List.any_eq_true.mp hany
    obtain ⟨hstatus, herror⟩ := of_decide_eq_true hq
    exact herror ((hw r hr).1 hstatus)
  · decide +kernel

end Jobs
end LeadPulse
