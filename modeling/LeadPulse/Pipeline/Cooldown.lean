import LeadPulse.Pipeline.Sound

/-!
# The Slack cooldown

`_send_signal_notification` locks the row of the company, reads it again, and sends nothing if
the last message is less than 24 hours old. The lock is held until the commit, which records
the new message, so no other execution can come in between.

The invariant `Cooldown` says what the lock is good for: the worker that holds it knows the
last message of the company, and that it is 24 hours old (`OpenWindow`). `slackCooldown` is the
main result; it holds in every run.
-/

namespace LeadPulse

open BackgroundOp (notified)

/-- The times of the messages of a company, in the order in which they were recorded. -/
def deliveriesOf (deliveries : List (ℕ × Time)) (companyId : ℕ) : List Time :=
  (deliveries.filter fun d => d.1 = companyId).map (·.2)

/-- Two messages of one company are at least 24 hours apart. -/
def Spaced (deliveries : List (ℕ × Time)) : Prop :=
  ∀ companyId, (deliveriesOf deliveries companyId).Pairwise fun a b => a + cooldown ≤ b

/-- Worker `i` has the lock on the company, and may send it a message from time `t` on. -/
structure OpenWindow (leads : LeadTables) (locks : ℕ → Option ℕ) (deliveries : List (ℕ × Time))
    (i companyId : ℕ) (t : Time) : Prop where
  lock : locks companyId = some i
  company : (notified leads companyId).isSome = true
  clear : ∀ last, (deliveriesOf deliveries companyId).getLast? = some last → last + cooldown ≤ t

/-- From the cooldown check to its commit, an execution has an open window. -/
def Dispatch.Holds (leads : LeadTables) (locks : ℕ → Option ℕ) (deliveries : List (ℕ × Time))
    (now : Time) (i : ℕ) : Dispatch → Prop
  | .collecting s _ | .sending s _ _ => OpenWindow leads locks deliveries i s.companyId now
  | .committing e => ∀ t, e.slackNotifiedAt = some t →
      OpenWindow leads locks deliveries i e.signal.companyId t
  | .counting _ _ | .locking _ => True

structure Cooldown (now : Time) (leads : LeadTables) (locks : ℕ → Option ℕ)
    (deliveries : List (ℕ × Time)) (dispatches : ℕ → Option Dispatch) : Prop where
  spaced : Spaced deliveries
  /-- The row of a company has the time of its last message. -/
  window : ∀ companyId,
    (notified leads companyId).join = (deliveriesOf deliveries companyId).getLast?
  holds : Slots.All (Dispatch.Holds leads locks deliveries now) dispatches

/-! ## Lists of messages -/

theorem deliveriesOf_append_self (deliveries : List (ℕ × Time)) (companyId : ℕ) (t : Time) :
    deliveriesOf (deliveries ++ [(companyId, t)]) companyId =
      deliveriesOf deliveries companyId ++ [t] := by
  unfold deliveriesOf
  rw [List.filter_append, List.map_append]
  simp

theorem deliveriesOf_append_ne (deliveries : List (ℕ × Time)) {companyId k : ℕ} (t : Time)
    (h : k ≠ companyId) :
    deliveriesOf (deliveries ++ [(companyId, t)]) k = deliveriesOf deliveries k := by
  unfold deliveriesOf
  rw [List.filter_append]
  simp [h.symm]

/-- A message that keeps its distance from the last one keeps it from all. -/
theorem pairwise_concat {ts : List Time} {t : Time}
    (h : ts.Pairwise fun a b => a + cooldown ≤ b)
    (hlast : ∀ last, ts.getLast? = some last → last + cooldown ≤ t) :
    (ts ++ [t]).Pairwise fun a b => a + cooldown ≤ b := by
  rw [List.pairwise_append]
  refine ⟨h, List.pairwise_singleton _ _, fun a ha b hb => ?_⟩
  obtain rfl := List.mem_singleton.mp hb
  have hne : ts ≠ [] := List.ne_nil_of_mem ha
  have hend := hlast (ts.getLast hne) (List.getLast?_eq_some_getLast hne)
  rw [← List.dropLast_append_getLast hne] at h ha
  rcases List.mem_append.mp ha with ha | ha
  · -- an earlier message is even further away
    have hbefore := (List.pairwise_append.mp h).2.2 a ha (ts.getLast hne) (by simp)
    unfold cooldown hours Time at *
    omega
  · obtain rfl := List.mem_singleton.mp ha
    exact hend

/-! ## What the workers hold -/

namespace OpenWindow

variable {leads leads' : LeadTables} {locks : ℕ → Option ℕ} {deliveries : List (ℕ × Time)}
  {i j companyId k : ℕ} {t t' : Time}

theorem mono (h : OpenWindow leads locks deliveries i companyId t)
    (hleads : ∀ id, (notified leads id).isSome = true → (notified leads' id).isSome = true)
    (ht : t ≤ t') : OpenWindow leads' locks deliveries i companyId t' where
  lock := h.lock
  company := hleads companyId h.company
  clear := fun last hlast => Int.le_trans (h.clear last hlast) ht

/-- Another worker takes a lock that is free. -/
theorem lockOther (h : OpenWindow leads locks deliveries i companyId t) (hfree : locks k = none) :
    OpenWindow leads (Function.update locks k (some j)) deliveries i companyId t where
  lock := by
    have hne : companyId ≠ k := by
      intro hk
      subst hk
      rw [h.lock] at hfree
      cases hfree
    rw [Function.update_of_ne hne]
    exact h.lock
  company := h.company
  clear := h.clear

end OpenWindow

namespace Dispatch

variable {leads leads' : LeadTables} {locks locks' : ℕ → Option ℕ}
  {deliveries deliveries' : List (ℕ × Time)} {now now' : Time} {i : ℕ} {d : Dispatch}

/-- What a worker holds is kept if all its windows are. -/
theorem Holds.mono (h : d.Holds leads locks deliveries now i)
    (hwin : ∀ companyId t, OpenWindow leads locks deliveries i companyId t →
      OpenWindow leads' locks' deliveries' i companyId t) (hnow : now ≤ now') :
    d.Holds leads' locks' deliveries' now' i := by
  cases d with
  | counting s c => trivial
  | locking s => trivial
  | collecting s c => exact (hwin _ _ h).mono (fun _ hc => hc) hnow
  | sending s c pending => exact (hwin _ _ h).mono (fun _ hc => hc) hnow
  | committing e => exact fun t ht => hwin _ _ (h t ht)

/-- An execution that has just been started holds nothing. -/
theorem holds_load {signals : List Signal} {companies : List Company} {slack : Bool}
    {signalId : ℕ} (h : load signals companies slack signalId = .ok d) :
    d.Holds leads locks deliveries now i := by
  unfold load at h
  split at h
  · cases h
  · split at h
    · cases h
    · split at h
      · cases h
      · cases h
        split
        · trivial
        · exact fun t ht => nomatch ht
      · cases h
        exact fun t ht => nomatch ht
      · cases h
        trivial
      · cases h
        exact fun t ht => nomatch ht

theorem holds_enrich (limit count : ℕ) (s : Signal) (company : Option Company)
    (delay : Except String Unit) :
    (committing (enrich limit count s company delay)).Holds leads locks deliveries now i := by
  intro t ht
  unfold enrich at ht
  split at ht <;> cases ht

/-- A delivery records the time at which it was made. -/
theorem holds_deliver {s : Signal} {c : Company} {pending : List Signal}
    {result : Except String Bool}
    (h : (sending s c pending).Holds leads locks deliveries now i) :
    (committing (deliver s now result)).Holds leads locks deliveries now i := by
  intro t ht
  rw [deliver_slackNotifiedAt] at ht
  split at ht
  · cases ht
    rw [deliver_signal]
    exact h
  · cases ht

end Dispatch

namespace Cooldown

variable {now now' : Time} {leads leads' : LeadTables} {locks : ℕ → Option ℕ}
  {deliveries : List (ℕ × Time)} {dispatches : ℕ → Option Dispatch} {i : ℕ}

theorem init (t : Time) :
    Cooldown t { companies := [], integrations := [] } (fun _ => none) [] (fun _ => none) where
  spaced := fun _ => List.Pairwise.nil
  window := fun _ => rfl
  holds := Slots.All.none

theorem set (h : Cooldown now leads locks deliveries dispatches) {d : Dispatch}
    (hd : d.Holds leads locks deliveries now i) :
    Cooldown now leads locks deliveries (Function.update dispatches i (some d)) :=
  { h with holds := h.holds.set hd }

/-- Time goes on, and companies are written by others. -/
theorem quiet (h : Cooldown now leads locks deliveries dispatches) (hnow : now ≤ now')
    (hleads : ∀ id, notified leads' id = notified leads id ∨
      (notified leads id = none ∧ notified leads' id = some none)) :
    Cooldown now' leads' locks deliveries dispatches where
  spaced := h.spaced
  window := by
    intro id
    rcases hleads id with heq | ⟨hnone, hnew⟩
    · rw [heq]
      exact h.window id
    · rw [← h.window id, hnone, hnew]
      rfl
  holds := h.holds.mono fun j d _ hd => by
    refine hd.mono (fun id t hw => hw.mono (fun id hsome => ?_) (Int.le_refl t)) hnow
    rcases hleads id with heq | ⟨hnone, hnew⟩
    · rw [heq]
      exact hsome
    · rw [hnew]
      rfl

/-- Worker `i` takes the free lock of a company. -/
theorem lock (h : Cooldown now leads locks deliveries dispatches) {k : ℕ}
    (hfree : locks k = none) :
    Cooldown now leads (Function.update locks k (some i)) deliveries dispatches :=
  { h with holds := h.holds.mono fun _ _ _ hd =>
      hd.mono (fun _ _ hw => hw.lockOther hfree) (Int.le_refl now) }

/-- The company whose lock has been taken is not cooling down. -/
theorem openWindow (h : Cooldown now leads locks deliveries dispatches) {c : Company} {k : ℕ}
    (hc : leads.company k = some c) (hcool : Dispatch.coolingDown c now = false)
    (hlock : locks k = some i) : OpenWindow leads locks deliveries i k now where
  lock := hlock
  company := by simp [notified, hc]
  clear := by
    intro last hlast
    have hw := h.window k
    rw [hlast] at hw
    have hrow : c.slackNotifiedAt = some last := by simpa [notified, hc] using hw
    simp only [Dispatch.coolingDown, hrow, Option.any_some, decide_eq_false_iff_not] at hcool
    unfold cooldown hours Time at *
    omega

end Cooldown

namespace World

/-- The other workers keep their locks when worker `i` gives its own back. -/
theorem release_ne {w : World} {i j k : ℕ} (hj : j ≠ i) (h : w.locks k = some j) :
    w.release i k = some j := by
  unfold release
  rw [if_neg]
  · exact h
  · rw [h]
    intro heq
    exact hj (Option.some.inj heq)

/-- A commit without a message leaves the times of the last messages alone. -/
theorem notified_finish_none {db : LeadTables} {e : Execution} (he : e.slackNotifiedAt = none)
    (companyId id : ℕ) :
    notified (db.modifyCompany companyId (finishCompany e)) id = notified db id := by
  refine LeadTables.notified_modifyCompany db companyId id (fun _ => rfl) fun c => ?_
  show e.slackNotifiedAt.or c.slackNotifiedAt = c.slackNotifiedAt
  rw [he]
  rfl

/-- A commit with a message sets the time of the last message of its company. -/
theorem notified_finish_some {db : LeadTables} {e : Execution} {t : Time}
    (he : e.slackNotifiedAt = some t) (companyId id : ℕ) :
    notified (db.modifyCompany companyId (finishCompany e)) id =
      if id = companyId then (notified db id).map fun _ => some t else notified db id := by
  unfold notified
  rw [LeadTables.company_modifyCompany db companyId id (f := finishCompany e) fun _ => rfl]
  split
  · rw [Option.map_map, Option.map_map]
    congr 1
    funext c
    show e.slackNotifiedAt.or c.slackNotifiedAt = some t
    rw [he]
    rfl
  · rfl

theorem cooldown_crash {w : World}
    (h : Cooldown w.now w.leads w.locks w.deliveries w.dispatches) (i : ℕ) :
    Cooldown w.now w.leads (w.release i) w.deliveries (Function.update w.dispatches i none) where
  spaced := h.spaced
  window := h.window
  holds := Slots.All.clear_of fun j d hj hd => by
    refine (h.holds j d hd).mono (fun k t hw => ?_) (Int.le_refl w.now)
    exact ⟨release_ne hj hw.lock, hw.company, hw.clear⟩

/-- The commit of a message: the window of the worker was open. -/
theorem cooldown_deliver {w : World} {i companyId : ℕ} {e : Execution} {t : Time}
    (h : Cooldown w.now w.leads w.locks w.deliveries w.dispatches)
    (he : e.slackNotifiedAt = some t) (hw : OpenWindow w.leads w.locks w.deliveries i companyId t) :
    Cooldown w.now (w.leads.modifyCompany companyId (finishCompany e)) (w.release i)
      (w.deliveries ++ [(companyId, t)]) (Function.update w.dispatches i none) where
  spaced := by
    intro k
    by_cases hk : k = companyId
    · subst hk
      rw [deliveriesOf_append_self]
      exact pairwise_concat (h.spaced k) hw.clear
    · rw [deliveriesOf_append_ne _ t hk]
      exact h.spaced k
  window := by
    intro k
    rw [notified_finish_some he]
    split
    · rename_i hk
      subst hk
      -- the row of the company exists, so the update has met it
      obtain ⟨last, hlast⟩ := Option.isSome_iff_exists.mp hw.company
      rw [deliveriesOf_append_self, hlast]
      simp
    · rename_i hk
      rw [deliveriesOf_append_ne _ t hk]
      exact h.window k
  holds := Slots.All.clear_of fun j d hj hd => by
    refine (h.holds j d hd).mono (fun k t' hw' => ?_) (Int.le_refl w.now)
    -- the other worker has the lock on another company
    have hk : k ≠ companyId := by
      intro hk
      subst hk
      have hlock := hw.lock
      rw [hw'.lock] at hlock
      exact hj (Option.some.inj hlock)
    refine ⟨release_ne hj hw'.lock, ?_, ?_⟩
    · rw [notified_finish_some he, if_neg hk]
      exact hw'.company
    · rw [deliveriesOf_append_ne _ t hk]
      exact hw'.clear

theorem cooldown_finish {w : World} {i : ℕ} {e : Execution}
    (h : Cooldown w.now w.leads w.locks w.deliveries w.dispatches)
    (hd : w.dispatches i = some (.committing e)) :
    Cooldown w.now (w.leads.modifyCompany e.signal.companyId (finishCompany e)) (w.release i)
      (w.deliveries ++ e.slackNotifiedAt.toList.map fun t => (e.signal.companyId, t))
      (Function.update w.dispatches i none) := by
  cases he : e.slackNotifiedAt with
  | none =>
    rw [Option.toList_none, List.map_nil, List.append_nil]
    exact (cooldown_crash h i).quiet (Int.le_refl w.now) fun id =>
      Or.inl (notified_finish_none he _ id)
  | some t => exact cooldown_deliver h he (h.holds i _ hd t he)

theorem cooldown_step {cfg : PipelineConfig} {w w' : World} {ev : Event}
    (h : Cooldown w.now w.leads w.locks w.deliveries w.dispatches)
    (hs : step cfg w ev = some w') :
    Cooldown w'.now w'.leads w'.locks w'.deliveries w'.dispatches := by
  cases step_move hs with
  | write hw =>
    have hq := hw.quiet
    rw [hq.locks, hq.deliveries, hq.dispatches]
    refine h.quiet hq.now fun id => (hq.notified id).imp_right fun hnew => ⟨?_, hnew.2⟩
    have hnone : w.leads.company id = none := hnew.1
    simp [notified, hnone]
  | addSignal s hfresh hp ha he => exact h
  | analysis i a ha => exact h
  | analysisEnds i => exact h
  | verdict i l v hlv => exact h
  | start i signalId slack d hfree hd => exact h.set (Dispatch.holds_load hd)
  | enrich i s c delay hd => exact h.set (Dispatch.holds_enrich _ _ _ _ _)
  | unlocked i s hd hc => exact h.set fun t ht => nomatch ht
  | suppressed i s c hd hc hfree hcool => exact (h.lock hfree).set fun t ht => nomatch ht
  | locked i s c hd hc hfree hcool =>
    -- the row was read under the lock, so what it says is up to date
    have hl := h.lock (i := i) hfree
    exact hl.set (hl.openWindow hc hcool (Function.update_self ..))
  | collect i s c hd =>
    have hold := h.holds i _ hd
    exact h.set hold
  | deliver i s c pending result hd => exact h.set (Dispatch.holds_deliver (h.holds i _ hd))
  | finish i e hd hmay => exact cooldown_finish h hd
  | crash i => exact cooldown_crash h i
  | digest => exact h

/-- The executions that were committed have their row executed. -/
theorem executed_step {cfg : PipelineConfig} {w w' : World} {ev : Event}
    (hsound : Sound w.signals w.analyses w.dispatches)
    (h : ∀ p ∈ w.executions, ¬ Unexecuted w.signals p.1) (hs : step cfg w ev = some w') :
    ∀ p ∈ w'.executions, ¬ Unexecuted w'.signals p.1 := by
  cases step_move hs with
  | write hw =>
    have hq := hw.quiet
    rw [hq.executions, hq.signals]
    exact h
  | addSignal s hfresh hp ha he => exact fun p hp hun => h p hp (unexecuted_append hun)
  | verdict i l v hlv =>
    have hv := (hsound.analysis i _ hlv).1.verdict l v rfl
    intro p hp
    show ¬ Unexecuted (Table.modify Signal.id w.signals l.id (Signal.flush l v)) p.1
    rw [unexecuted_modify (Signal.flush_id l v) fun r =>
      Signal.flush_actionExecutedAt hv.actionExecutedAt]
    exact h p hp
  | finish i e hd hmay =>
    obtain ⟨row, hrow, _⟩ := (hsound.dispatch i _ hd).2
    intro p hp hun
    obtain ⟨hne, hold⟩ := unexecuted_finish (Option.isSome_of_mem hrow) hun
    rcases List.mem_append.mp hp with hp | hp
    · exact h p hp hold
    · obtain ⟨a, ha, rfl⟩ := List.mem_map.mp hp
      exact hne rfl
  | _ => exact h

end World

/-! ## The main result -/

/-- The cooldown in one state. -/
structure SlackCooldown (cfg : PipelineConfig) (w : World) : Prop where
  /-- Two messages recorded for a company are at least 24 hours apart. -/
  spaced : ∀ companyId, (deliveriesOf w.deliveries companyId).Pairwise fun a b => a + hours 24 ≤ b
  /-- The window of a company is that of the last message recorded for it. -/
  window : ∀ companyId c, w.company companyId = some c →
    c.slackNotifiedAt = (deliveriesOf w.deliveries companyId).getLast?
  /-- After a failed delivery there is nothing to record. -/
  failed : ∀ i s c pending result w', w.dispatches i = some (.sending s c pending) →
    result ≠ .ok true → World.step cfg w (.deliver i result) = some w' →
    ∃ e, w'.dispatches i = some (.committing e) ∧ e.slackNotifiedAt = none
  /-- A message that was delivered is to be recorded with the time of its delivery. -/
  delivered : ∀ i s c pending w', w.dispatches i = some (.sending s c pending) →
    World.step cfg w (.deliver i (.ok true)) = some w' →
    ∃ e, w'.dispatches i = some (.committing e) ∧ e.signal = s ∧ e.slackNotifiedAt = some w.now
  /-- The commit records it, and opens the window of its company and no other one. -/
  recorded : ∀ i e t w', w.dispatches i = some (.committing e) → e.slackNotifiedAt = some t →
    World.step cfg w (.finish i) = some w' →
    w'.deliveries = w.deliveries ++ [(e.signal.companyId, t)] ∧
      notified w'.leads e.signal.companyId = some (some t) ∧
      ∀ id ≠ e.signal.companyId, notified w'.leads id = notified w.leads id
  /-- The commit of an execution with nothing to record leaves all windows alone. -/
  unopened : ∀ i e w', w.dispatches i = some (.committing e) → e.slackNotifiedAt = none →
    World.step cfg w (.finish i) = some w' →
    w'.deliveries = w.deliveries ∧ ∀ id, notified w'.leads id = notified w.leads id
  /-- A commit sets `action_executed_at`, which stays set. -/
  executed : ∀ p ∈ w.executions, ¬ Unexecuted w.signals p.1
  commits : ∀ i e w', w.dispatches i = some (.committing e) →
    World.step cfg w (.finish i) = some w' → ¬ Unexecuted w'.signals e.signal.id

namespace World

theorem deliver_failed {cfg : PipelineConfig} {w w' : World} {i : ℕ} {s : Signal} {c : Company}
    {pending : List Signal} {result : Except String Bool}
    (hd : w.dispatches i = some (.sending s c pending)) (hr : result ≠ .ok true)
    (hs : step cfg w (.deliver i result) = some w') :
    ∃ e, w'.dispatches i = some (.committing e) ∧ e.slackNotifiedAt = none := by
  simp only [step, hd, Option.some.injEq] at hs
  subst hs
  refine ⟨Dispatch.deliver s w.now result, Function.update_self .., ?_⟩
  rw [Dispatch.deliver_slackNotifiedAt, if_neg hr]

theorem deliver_delivered {cfg : PipelineConfig} {w w' : World} {i : ℕ} {s : Signal} {c : Company}
    {pending : List Signal} (hd : w.dispatches i = some (.sending s c pending))
    (hs : step cfg w (.deliver i (.ok true)) = some w') :
    ∃ e, w'.dispatches i = some (.committing e) ∧ e.signal = s ∧
      e.slackNotifiedAt = some w.now := by
  simp only [step, hd, Option.some.injEq] at hs
  subst hs
  exact ⟨Dispatch.deliver s w.now (.ok true), Function.update_self .., rfl, rfl⟩

theorem finish_recorded {cfg : PipelineConfig} {w w' : World} {i : ℕ} {e : Execution} {t : Time}
    (h : Cooldown w.now w.leads w.locks w.deliveries w.dispatches)
    (hd : w.dispatches i = some (.committing e)) (he : e.slackNotifiedAt = some t)
    (hs : step cfg w (.finish i) = some w') :
    w'.deliveries = w.deliveries ++ [(e.signal.companyId, t)] ∧
      notified w'.leads e.signal.companyId = some (some t) ∧
      ∀ id ≠ e.signal.companyId, notified w'.leads id = notified w.leads id := by
  -- the row has been locked, so it is there
  have hwindow : OpenWindow w.leads w.locks w.deliveries i e.signal.companyId t :=
    h.holds i _ hd t he
  obtain ⟨last, hlast⟩ := Option.isSome_iff_exists.mp hwindow.company
  have hnotified (id : ℕ) :
      notified (w.leads.modifyCompany e.signal.companyId (finishCompany e)) id =
        if id = e.signal.companyId then (notified w.leads id).map fun _ => some t
        else notified w.leads id := notified_finish_some he e.signal.companyId id
  rw [finish_eq hd hs]
  refine ⟨?_, ?_, fun id hid => ?_⟩
  · show w.deliveries ++ _ = _
    rw [he]
    rfl
  · refine (hnotified _).trans ?_
    rw [if_pos rfl, hlast]
    rfl
  · refine (hnotified id).trans ?_
    rw [if_neg hid]

theorem finish_unopened {cfg : PipelineConfig} {w w' : World} {i : ℕ} {e : Execution}
    (hd : w.dispatches i = some (.committing e)) (he : e.slackNotifiedAt = none)
    (hs : step cfg w (.finish i) = some w') :
    w'.deliveries = w.deliveries ∧ ∀ id, notified w'.leads id = notified w.leads id := by
  rw [finish_eq hd hs]
  refine ⟨?_, notified_finish_none he _⟩
  show w.deliveries ++ _ = w.deliveries
  rw [he]
  exact List.append_nil _

end World

/-- The cooldown holds in every state of every run. -/
theorem slackCooldown (cfg : PipelineConfig) (t : Time) (events : List Event) :
    Run.AllStates (World.step cfg) (SlackCooldown cfg) (World.init t) events := by
  have hinv : Run.AllStates (World.step cfg) (fun w =>
      Sound w.signals w.analyses w.dispatches ∧
        Cooldown w.now w.leads w.locks w.deliveries w.dispatches ∧
        ∀ p ∈ w.executions, ¬ Unexecuted w.signals p.1) (World.init t) events := by
    refine Run.AllStates.of_step ?_ ⟨Sound.init, Cooldown.init t, fun p hp => nomatch hp⟩ events
    intro w ev w' ⟨hsound, hcool, hexec⟩ hs
    exact ⟨World.sound_step hsound hs, World.cooldown_step hcool hs,
      World.executed_step hsound hexec hs⟩
  refine hinv.mono fun w ⟨hsound, hcool, hexec⟩ => ?_
  refine ⟨hcool.spaced, fun id c hc => ?_, fun i s c pending result w' => World.deliver_failed,
    fun i s c pending w' => World.deliver_delivered,
    fun i e t w' hd he hs => World.finish_recorded hcool hd he hs,
    fun i e w' => World.finish_unopened, hexec, fun i e w' hd hs hun => ?_⟩
  · have hw := hcool.window id
    have hc' : w.leads.company id = some c := hc
    simpa [notified, hc'] using hw
  · rw [World.finish_eq hd hs] at hun
    obtain ⟨row, hrow, _⟩ := (hsound.dispatch i _ hd).2
    exact (unexecuted_finish (Option.isSome_of_mem hrow) hun).1 rfl

/-- Three signals of a company, the second one an hour after the first and the third one a day
later. -/
def threeNotified : List Event :=
  [.addCompany { id := 1, name := [], domain := [] }] ++ analysedSignal 1 1 80 ++
  [.execute 0 1 true, .lock 0, .collect 0, .deliver 0 (.ok true), .finish 0, .tick (hours 1)] ++
  analysedSignal 2 1 80 ++ [.execute 0 2 true, .lock 0, .finish 0, .tick (hours 24)] ++
  analysedSignal 3 1 80 ++
  [.execute 0 3 true, .lock 0, .collect 0, .deliver 0 (.ok true), .finish 0]

/-- There is no message about the second one. -/
example : (Run.exec (World.step {}) (World.init 0) threeNotified).map World.deliveries =
    some [(1, 0), (1, hours 25)] := by
  decide +kernel

end LeadPulse
