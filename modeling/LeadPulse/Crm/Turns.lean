import LeadPulse.Crm.Runs

/-!
# What a turn does

For each service what a turn of a company that goes through has done (`Pushed`,
`Legacy.Pushed`), and for each step of a run what has happened to the world (`Move`). The
loops over signals and contacts leave alone what they are not about.
-/

namespace LeadPulse
namespace Crm

variable {E : Env} {cfg : Config} {legacy : ListConfig} {turn : Turn}
  {cache : Option TaskNameCache} {w w' : World} {company : Company} {taskId : String} {k : ℕ}

/-! ## The loops -/

/-- What every turn of a loop keeps, the loop keeps. -/
theorem foldl_keeps {α β : Type} {f : World → α → World} (p : World → β)
    (h : ∀ w a, p (f w a) = p w) (as : List α) (w : World) : p (as.foldl f w) = p w := by
  induction as generalizing w with
  | nil => rfl
  | cons a as ih =>
    rw [List.foldl_cons, ih]
    exact h w a

/-- A signal is posted, or nothing happens. -/
theorem postSignal_cases (turn : Turn) (taskId : String) (w : World) (r : SignalRow) :
    (∃ e, attempt turn.faults (.addComment r.id) (w.clickup.addComment taskId r.id) = .error e ∧
      postSignal turn taskId w r = w) ∨
    (∃ s, attempt turn.faults (.addComment r.id) (w.clickup.addComment taskId r.id) = .ok s ∧
      postSignal turn taskId w r = w.markPosted r.id turn.now s) := by
  unfold postSignal
  split
  · next e he => exact Or.inl ⟨e, he, rfl⟩
  · next s hs => exact Or.inr ⟨s, hs, rfl⟩

/-- What marking a signal keeps, the loop over the signals keeps. -/
theorem postSignals_keeps {β : Type} (p : World → β)
    (h : ∀ w r (s : ClickUp), s.tasks = w.clickup.tasks → s.deleted = w.clickup.deleted →
      p (w.markPosted r turn.now s) = p w) :
    p (postSignalsAsComments E turn taskId k w) = p w := by
  refine foldl_keeps p (fun w r => ?_) _ w
  rcases postSignal_cases turn taskId w r with ⟨-, -, hw⟩ | ⟨s, hs, hw⟩
  · rw [hw]
  · have hspec := ClickUp.addComment_spec (attempt_ok.mp hs).2
    rw [hw]
    exact h w r.id s hspec.1 hspec.2

@[simp] theorem leads_postSignals : (postSignalsAsComments E turn taskId k w).tables.toLeadTables =
    w.tables.toLeadTables :=
  postSignals_keeps (fun w => w.tables.toLeadTables) fun _ _ _ _ _ => rfl

@[simp] theorem contacts_postSignals :
    (postSignalsAsComments E turn taskId k w).tables.contacts = w.tables.contacts :=
  postSignals_keeps (fun w => w.tables.contacts) fun _ _ _ _ _ => rfl

@[simp] theorem created_postSignals :
    (postSignalsAsComments E turn taskId k w).created = w.created :=
  postSignals_keeps (fun w => w.created) fun _ _ _ _ _ => rfl

@[simp] theorem tasks_postSignals :
    (postSignalsAsComments E turn taskId k w).clickup.tasks = w.clickup.tasks :=
  postSignals_keeps (fun w => w.clickup.tasks) fun _ _ _ h _ => h

@[simp] theorem deleted_postSignals :
    (postSignalsAsComments E turn taskId k w).clickup.deleted = w.clickup.deleted :=
  postSignals_keeps (fun w => w.clickup.deleted) fun _ _ _ _ h => h

theorem grows_postSignals (E : Env) (turn : Turn) (taskId : String) (k : ℕ) (w : World) :
    ClickUp.Grows w.clickup (postSignalsAsComments E turn taskId k w).clickup where
  tasks t ht := by
    refine ⟨t, ?_, rfl, List.Subset.refl _⟩
    rw [tasks_postSignals]
    exact ht
  deleted := deleted_postSignals
  fresh t ht := by
    rw [tasks_postSignals] at ht
    exact Or.inl ⟨t, ht, rfl⟩

/-- What saving a contact keeps, the loop over the contacts keeps. -/
theorem pushContacts_keeps {β : Type} (p : World → β)
    (h : ∀ w c s, p (World.saveContact w c s) = p w) :
    p (pushContacts E cfg turn taskId k w) = p w := by
  unfold pushContacts
  split
  · rfl
  · exact foldl_keeps p (fun w c => h w _ _) _ w

@[simp] theorem leads_pushContacts :
    (pushContacts E cfg turn taskId k w).tables.toLeadTables = w.tables.toLeadTables :=
  pushContacts_keeps (fun w => w.tables.toLeadTables) fun _ _ _ => rfl

@[simp] theorem signals_pushContacts :
    (pushContacts E cfg turn taskId k w).tables.signals = w.tables.signals :=
  pushContacts_keeps (fun w => w.tables.signals) fun _ _ _ => rfl

@[simp] theorem created_pushContacts :
    (pushContacts E cfg turn taskId k w).created = w.created :=
  pushContacts_keeps (fun w => w.created) fun _ _ _ => rfl

@[simp] theorem posted_pushContacts :
    (pushContacts E cfg turn taskId k w).posted = w.posted :=
  pushContacts_keeps (fun w => w.posted) fun _ _ _ => rfl

/-! ## ClickUp in the loop over the contacts -/

section

variable {s : ClickUp} {contact : Contact}

theorem grows_createPersonTask :
    ClickUp.Grows s (createPersonTask E cfg turn s contact).clickup := by
  unfold createPersonTask
  split
  · exact .refl s
  · next s' task hs => exact ClickUp.grows_createTask (Except.ok.inj (attempt_ok.mp hs).2)

theorem grows_savePersonTask : ClickUp.Grows s (savePersonTask E cfg turn s contact).clickup := by
  unfold savePersonTask
  split
  · unfold updatePersonTask
    split
    · next s' task hs => exact ClickUp.grows_updateTask (attempt_ok.mp hs).2
    · exact grows_createPersonTask
    · exact .refl s
  · split
    · exact .refl s
    · exact .refl s
    · exact grows_createPersonTask

theorem grows_relate (turn : Turn) (s : ClickUp) (call : Call) (taskId fieldId other : String) :
    ClickUp.Grows s (relate turn s call taskId fieldId other) := by
  unfold relate
  split
  · exact .refl s
  · split
    · exact .refl s
    · next s' hs => exact ClickUp.grows_setCustomFieldValue (attempt_ok.mp hs).2

theorem grows_linkIfNew (cfg : Config) (turn : Turn) (companyTaskId : String) (old : Contact)
    (p : PersonTurn) : ClickUp.Grows p.clickup (linkIfNew cfg turn companyTaskId old p) := by
  unfold linkIfNew
  split
  · exact .refl _
  · split
    · exact (grows_relate turn _ _ _ _ _).trans (grows_relate turn _ _ _ _ _)
    · exact .refl _

theorem grows_pushContact (w : World) (contact : Contact) :
    ClickUp.Grows w.clickup (pushContact E cfg turn taskId w contact).clickup :=
  grows_savePersonTask.trans (grows_linkIfNew cfg turn taskId contact _)

theorem grows_foldl_pushContact (contacts : List Contact) (w : World) :
    ClickUp.Grows w.clickup (contacts.foldl (pushContact E cfg turn taskId) w).clickup := by
  induction contacts generalizing w with
  | nil => exact .refl _
  | cons c contacts ih => exact (grows_pushContact w c).trans (ih _)

theorem grows_pushContacts :
    ClickUp.Grows w.clickup (pushContacts E cfg turn taskId k w).clickup := by
  unfold pushContacts
  split
  · exact .refl _
  · exact grows_foldl_pushContact _ w

end

/-! ## Calls about companies -/

theorem createCompanyTask_ok {cfg : ListConfig} {s s' : ClickUp} {task : ClickUpTask}
    (h : createCompanyTask E turn cfg s company = .ok (s', task)) :
    s.createTask E.server cfg.listId company.name "suspect" (buildCustomFields cfg company) =
      (s', task) :=
  Except.ok.inj (attempt_ok.mp h).2

/-- Creating a task always succeeds, unless the call fails. -/
theorem createCompanyTask_of_none (E : Env) (cfg : ListConfig) (company : Company) (s : ClickUp)
    (h : turn.faults .createTask = none) :
    ∃ s' task, createCompanyTask E turn cfg s company = .ok (s', task) :=
  ⟨_, _, attempt_ok.mpr ⟨h, rfl⟩⟩

/-- The task that has been created is there. -/
theorem find_createCompanyTask {cfg : ListConfig} {s s' : ClickUp} {task : ClickUpTask}
    (h : createCompanyTask E turn cfg s company = .ok (s', task)) : s'.find task.id ≠ none := by
  obtain ⟨t, rfl, -, -, hmem, -⟩ := ClickUp.createTask_spec (createCompanyTask_ok h)
  exact ClickUp.find_ne_none.mpr ⟨t, (hmem t).mpr (Or.inl rfl), rfl⟩

/-- The task that has been updated is there, under the id of the call. -/
theorem find_updateCompanyTask {cfg : ListConfig} {s s' : ClickUp} {task : ClickUpTask}
    (h : updateCompanyTask turn cfg s company taskId = .ok (s', task)) :
    task.id = taskId ∧ s'.find taskId ≠ none := by
  have hcall := (attempt_ok.mp h).2
  obtain ⟨t, ht, rfl, rfl, -⟩ := ClickUp.updateTask_spec hcall
  exact ⟨rfl, (ClickUp.grows_updateTask hcall).find (ClickUp.find_ne_none.mpr ⟨t, ht, rfl⟩)⟩

theorem findExistingTask_spec {cfg : ListConfig} {s : ClickUp} {domain : List Char}
    {task : ClickUpTask} (h : findExistingTask turn cfg s domain = .ok (some task)) :
    ∃ t ∈ s.tasks, task = t.parse := by
  unfold findExistingTask at h
  split at h
  · cases h
  · exact ClickUp.findTaskByCustomField_spec (Except.ok.inj (attempt_ok.mp h).2)

theorem searchName_spec {s : ClickUp} {name : List Char} {task : ClickUpTask}
    (h : searchName E cfg turn cache s name = .ok (some task)) :
    ∃ t : StoredTask, task = t.parse ∧
      (t ∈ s.tasks ∨ ∃ c, cache = some c ∧ c.lookup (E.unicode.lower name) = some t) := by
  unfold searchName at h
  split at h
  · next c =>
    obtain ⟨t, ht, rfl⟩ := Option.map_eq_some_iff.mp (Except.ok.inj h)
    exact ⟨t, rfl, Or.inr ⟨c, rfl, ht⟩⟩
  · obtain ⟨t, ht, rfl⟩ := ClickUp.findTaskByName_spec (Except.ok.inj (attempt_ok.mp h).2)
    exact ⟨t, rfl, Or.inl ht⟩

/-- A task that is found is in ClickUp or was there when the cache was built. -/
theorem findExisting_spec {task : ClickUpTask}
    (h : findExisting E cfg turn cache w company = .ok (some task)) :
    ∃ t : StoredTask, task = t.parse ∧ (t ∈ w.clickup.tasks ∨
      ∃ c, cache = some c ∧ c.lookup (E.unicode.lower company.name) = some t) := by
  unfold findExisting at h
  split at h
  · cases h
  · next found hfound =>
    cases h
    obtain ⟨t, ht, rfl⟩ := findExistingTask_spec hfound
    exact ⟨t, rfl, Or.inl ht⟩
  · unfold findExistingTaskByName at h
    split at h
    · exact searchName_spec h
    · split at h
      · next found hfound =>
        cases h
        obtain ⟨t, ht, rfl⟩ := ClickUp.getTask_spec (attempt_ok.mp hfound).2
        exact ⟨t, rfl, Or.inl ht⟩
      · exact searchName_spec h
      · cases h

/-! ## A turn of the provider -/

/-- The world after a turn's first commit, the comments and the contacts. -/
def finishTurn (E : Env) (cfg : Config) (turn : Turn) (commentsTo contactsTo : String) (k : ℕ)
    (w : World) : World :=
  pushContacts E cfg turn contactsTo k (postSignalsAsComments E turn commentsTo k w)

section

variable (E cfg turn cache w company)

/-- What a turn of the provider that goes through has done. -/
inductive Pushed : World → Prop
  | updated (i : CRMIntegration) (s : ClickUp) (task : ClickUpTask)
      (hi : w.tables.integration company.id = some i)
      (hs : updateCompanyTask turn cfg.toListConfig w.clickup company i.externalId =
        .ok (s, task)) :
      Pushed (finishTurn E cfg turn task.id i.externalId company.id
        ((w.setClickUp s).setLeads (w.tables.updateTask i task)))
  | linked (task : ClickUpTask) (hi : w.tables.integration company.id = none)
      (hfind : findExisting E cfg turn cache w company = .ok (some task)) :
      Pushed (w.setLeads (w.tables.linkExisting company task))
  | created (s : ClickUp) (task : ClickUpTask) (hi : w.tables.integration company.id = none)
      (hfind : findExisting E cfg turn cache w company = .ok none)
      (hs : createCompanyTask E turn cfg.toListConfig w.clickup company = .ok (s, task)) :
      Pushed (finishTurn E cfg turn task.id task.id company.id
        (((w.setClickUp s).setLeads (w.tables.createTask company task)).addCreated
          company.id task.id))

end

theorem pushLoaded_ok (h : pushLoaded E cfg turn cache w company = .ok w') :
    Pushed E cfg turn cache w company w' := by
  unfold pushLoaded at h
  split at h
  · next i hi =>
    unfold updateTask at h
    split at h
    · cases h
    · next s task hs =>
      cases h
      exact .updated i s task hi hs
  · next hi =>
    split at h
    · cases h
    · next task hfind =>
      cases h
      exact .linked task hi hfind
    · next hfind =>
      unfold createTask at h
      split at h
      · cases h
      · next s task hs =>
        cases h
        exact .created s task hi hfind hs

/-- The turn of the company with the given id, in the batch or alone. -/
def takeTurn (E : Env) (cfg : Config) (turn : Turn) (cache : Option TaskNameCache) (w : World)
    (k : ℕ) : World :=
  match w.tables.company k with
  | none => w
  | some company => (pushLoaded E cfg turn cache w company).toOption.getD w

theorem syncTurn_eq (cache : TaskNameCache) :
    syncTurn E cfg turn cache w k = takeTurn E cfg turn (some cache) w k := rfl

theorem pushCaught_eq : pushCaught E cfg turn w k = takeTurn E cfg turn none w k := by
  unfold pushCaught pushCompany takeTurn
  cases w.tables.company k with
  | none => rfl
  | some company =>
    dsimp only
    rw [toOption_mapError]

theorem grows_finishTurn (E : Env) (cfg : Config) (turn : Turn) (commentsTo contactsTo : String)
    (k : ℕ) (w : World) :
    ClickUp.Grows w.clickup (finishTurn E cfg turn commentsTo contactsTo k w).clickup :=
  (grows_postSignals E turn commentsTo k w).trans grows_pushContacts

theorem Pushed.grows (h : Pushed E cfg turn cache w company w') :
    ClickUp.Grows w.clickup w'.clickup := by
  cases h with
  | updated i s task hi hs =>
    have hupdate : ClickUp.Grows w.clickup s := ClickUp.grows_updateTask (attempt_ok.mp hs).2
    exact hupdate.trans (grows_finishTurn E cfg turn _ _ _
      ((w.setClickUp s).setLeads (w.tables.updateTask i task)))
  | linked task hi hfind => exact .refl _
  | created s task hi hfind hs =>
    have hcreate : ClickUp.Grows w.clickup s := ClickUp.grows_createTask (createCompanyTask_ok hs)
    exact hcreate.trans (grows_finishTurn E cfg turn _ _ _
      (((w.setClickUp s).setLeads (w.tables.createTask company task)).addCreated
        company.id task.id))

/-- What holds before a turn, and after it if it goes through, holds after it in any case: a turn
that raises has done nothing. -/
theorem takeTurn_keeps {P : World → Prop} (h : P w)
    (hpushed : ∀ company w', w.tables.company k = some company →
      Pushed E cfg turn cache w company w' → P w') : P (takeTurn E cfg turn cache w k) := by
  unfold takeTurn
  cases hc : w.tables.company k with
  | none => exact h
  | some company =>
    dsimp only
    cases hp : pushLoaded E cfg turn cache w company with
    | error e => exact h
    | ok w' => exact hpushed company w' hc (pushLoaded_ok hp)

theorem grows_takeTurn : ClickUp.Grows w.clickup (takeTurn E cfg turn cache w k).clickup :=
  takeTurn_keeps (P := fun w' => ClickUp.Grows w.clickup w'.clickup) (.refl _)
    fun _ _ _ hp => hp.grows

/-! ## A turn of the service before -/

namespace Legacy

section

variable (E legacy turn)

/-- Only a batch looks for the domain. -/
def findFirst (inBatch : Bool) (s : ClickUp) (domain : List Char) :
    Except ApiError (Option ClickUpTask) :=
  if inBatch then findExistingTask turn legacy s domain else .ok none

/-- What both operations of `ClickUpService` do for a company that has been loaded. -/
def pushLoaded (inBatch : Bool) (w : World) (company : Company) : Except ApiError World :=
  match nonEmpty company.clickupTaskId with
  | some taskId => updateTask E legacy turn w company taskId
  | none =>
    match findFirst legacy turn inBatch w.clickup company.domain with
    | .error e => .error e
    | .ok (some task) => .ok (w.setLeads (w.tables.modifyCompany company.id fun c =>
        { c with clickupTaskId := some task.id, clickupTaskUrl := task.url }))
    | .ok none => createTask E legacy turn w company

/-- The turn of the company with the given id, in a batch or alone. -/
def takeTurn (inBatch : Bool) (w : World) (k : ℕ) : World :=
  match w.tables.company k with
  | none => w
  | some company => (pushLoaded E legacy turn inBatch w company).toOption.getD w

variable (inBatch : Bool) (w : World) (company : Company)

/-- What a turn of `ClickUpService` that goes through has done. -/
inductive Pushed : World → Prop
  | updated (leads : LeadTables) (s : ClickUp) (task : ClickUpTask) (taskId : String)
      (hid : nonEmpty company.clickupTaskId = some taskId)
      (hs : updateCompanyTask turn legacy w.clickup company taskId = .ok (s, task))
      (hleads : leads = w.tables.toLeadTables ∨ leads = w.tables.modifyCompany company.id fun c =>
        { c with clickupTaskUrl := task.url }) :
      Pushed (postSignalsAsComments E turn task.id company.id
        ((w.setClickUp s).setLeads leads))
  | found (task : ClickUpTask) (hid : nonEmpty company.clickupTaskId = none)
      (hfind : findFirst legacy turn inBatch w.clickup company.domain = .ok (some task)) :
      Pushed (w.setLeads (w.tables.modifyCompany company.id fun c =>
        { c with clickupTaskId := some task.id, clickupTaskUrl := task.url }))
  | created (s : ClickUp) (task : ClickUpTask) (hid : nonEmpty company.clickupTaskId = none)
      (hfind : findFirst legacy turn inBatch w.clickup company.domain = .ok none)
      (hs : createCompanyTask E turn legacy w.clickup company = .ok (s, task)) :
      Pushed (postSignalsAsComments E turn task.id company.id
        (((w.setClickUp s).setLeads (w.tables.modifyCompany company.id fun c =>
          { c with status := .pushed, clickupTaskId := some task.id, clickupTaskUrl := task.url,
                   clickupStatus := some "suspect" })).addCreated company.id task.id))

end

/-- Only a task that is there is found. -/
theorem findFirst_spec {inBatch : Bool} {s : ClickUp} {domain : List Char} {task : ClickUpTask}
    (h : findFirst legacy turn inBatch s domain = .ok (some task)) :
    ∃ t ∈ s.tasks, task = t.parse := by
  unfold findFirst at h
  split at h
  · exact findExistingTask_spec h
  · cases h

theorem syncTurn_eq : syncTurn E legacy turn w k = takeTurn E legacy turn true w k := by
  unfold syncTurn takeTurn pushLoaded createNewTask findFirst
  rfl

theorem pushCaught_eq :
    (pushCompany E legacy turn w k).toOption.getD w = takeTurn E legacy turn false w k := by
  unfold pushCompany takeTurn pushLoaded findFirst
  cases w.tables.company k with
  | none => rfl
  | some company =>
    dsimp only
    rw [toOption_mapError]
    rfl

theorem pushLoaded_ok {inBatch : Bool} (h : pushLoaded E legacy turn inBatch w company = .ok w') :
    Pushed E legacy turn inBatch w company w' := by
  unfold pushLoaded at h
  split at h
  · next taskId hid =>
    unfold updateTask at h
    split at h
    · cases h
    · next s task hs =>
      cases h
      refine .updated _ s task taskId hid hs ?_
      split
      · exact Or.inr rfl
      · exact Or.inl rfl
  · next hid =>
    split at h
    · cases h
    · next task hfind =>
      cases h
      exact .found task hid hfind
    · next hfind =>
      unfold createTask at h
      split at h
      · cases h
      · next s task hs =>
        cases h
        exact .created s task hid hfind hs

theorem takeTurn_keeps {P : World → Prop} {inBatch : Bool} (h : P w)
    (hpushed : ∀ company w', w.tables.company k = some company →
      Pushed E legacy turn inBatch w company w' → P w') :
    P (takeTurn E legacy turn inBatch w k) := by
  unfold takeTurn
  cases hc : w.tables.company k with
  | none => exact h
  | some company =>
    dsimp only
    cases hp : pushLoaded E legacy turn inBatch w company with
    | error e => exact h
    | ok w' => exact hpushed company w' hc (pushLoaded_ok hp)

theorem Pushed.grows {inBatch : Bool} (h : Pushed E legacy turn inBatch w company w') :
    ClickUp.Grows w.clickup w'.clickup := by
  cases h with
  | updated leads s task taskId hid hs hleads =>
    have hupdate : ClickUp.Grows w.clickup s := ClickUp.grows_updateTask (attempt_ok.mp hs).2
    exact hupdate.trans (grows_postSignals E turn _ _ ((w.setClickUp s).setLeads leads))
  | found task hid hfind => exact .refl _
  | created s task hid hfind hs =>
    have hcreate : ClickUp.Grows w.clickup s := ClickUp.grows_createTask (createCompanyTask_ok hs)
    exact hcreate.trans (grows_postSignals E turn _ _
      (((w.setClickUp s).setLeads _).addCreated company.id task.id))

theorem grows_takeTurn {inBatch : Bool} :
    ClickUp.Grows w.clickup (takeTurn E legacy turn inBatch w k).clickup :=
  takeTurn_keeps (P := fun w' => ClickUp.Grows w.clickup w'.clickup) (.refl _)
    fun _ _ _ hp => hp.grows

theorem contacts_takeTurn {inBatch : Bool} :
    (takeTurn E legacy turn inBatch w k).tables.contacts = w.tables.contacts := by
  apply takeTurn_keeps (P := fun w' => w'.tables.contacts = w.tables.contacts) rfl
  intro company w' hc hp
  cases hp with
  | updated leads s task taskId hid hs hleads => exact contacts_postSignals
  | found task hid hfind => rfl
  | created s task hid hfind hs => exact contacts_postSignals

theorem integrations_takeTurn {inBatch : Bool} :
    (takeTurn E legacy turn inBatch w k).tables.integrations = w.tables.integrations := by
  apply takeTurn_keeps (P := fun w' => w'.tables.integrations = w.tables.integrations) rfl
  intro company w' hc hp
  cases hp with
  | updated leads s task taskId hid hs hleads =>
    rw [leads_postSignals]
    rcases hleads with rfl | rfl
    · rfl
    · rfl
  | found task hid hfind => rfl
  | created s task hid hfind hs =>
    rw [leads_postSignals]
    rfl

end Legacy

/-! ## A step of a run -/

/-- The turn of the provider that an event takes: the company, what the name is looked up in, and
the turn. -/
def providerTurn (s : State) : Event → Option (ℕ × Option TaskNameCache × Turn)
  | .pushCompany companyId turn => some (companyId, none, turn)
  | .nextTurn turn =>
    match s.batch with
    | some (.provider cache (k :: _)) => some (k, some cache, turn)
    | _ => none
  | _ => none

/-- The turn of `ClickUpService` that an event takes; it is `true` in a batch, which looks for
the domain. -/
def legacyTurn (s : State) : Event → Option (ℕ × Bool × Turn)
  | .legacyPush companyId turn => some (companyId, false, turn)
  | .nextTurn turn =>
    match s.batch with
    | some (.legacy (k :: _)) => some (k, true, turn)
    | _ => none
  | _ => none

section

variable (E cfg legacy)

/-- What a step does. -/
inductive Move (s : State) : Event → State → Prop
  | stay {e batch n} (hn : s.nextId ≤ n) : Move s e ⟨s.world, batch, n⟩
  | provider {e batch} (k cache turn) (h : providerTurn s e = some (k, cache, turn)) :
      Move s e ⟨takeTurn E cfg turn cache s.world k, batch, s.nextId⟩
  | legacy {e batch} (k inBatch turn) (h : legacyTurn s e = some (k, inBatch, turn)) :
      Move s e ⟨Legacy.takeTurn E legacy turn inBatch s.world k, batch, s.nextId⟩
  | cleanup {batch} : Move s .cleanup ⟨cleanupClickupLinks s.world, batch, s.nextId⟩
  | renameCompany {batch k name} (ht : (renamed s.world.tables k name).Constraints) :
      Move s (.renameCompany k name)
      ⟨{ s.world with tables := renamed s.world.tables k name }, batch, s.nextId⟩
  | mergeCompanies {batch p d} {db db' : Database} (h₀ : db.tables = s.world.tables)
      (h : Dedup.mergeCompanies E.unicode E.contactOrder E.signalOrder p d db = .ok db') :
      Move s (.mergeCompanies p d) ⟨{ s.world with tables := db'.tables }, batch, s.nextId⟩
  | addSignal {batch k signalType time} (r : SignalRow) (hid : r.id = s.nextId)
      (hr : r.crmCommentedAt = none) (ht : (withSignal s.world.tables r).Constraints) :
      Move s (.addSignal k signalType time)
      ⟨{ s.world with tables := withSignal s.world.tables r }, batch, s.nextId + 1⟩
  | addContact {batch k name email} (c : Contact) (hid : c.id = s.nextId)
      (hc : c.clickupTaskId = none) (ht : (withContact s.world.tables c).Constraints) :
      Move s (.addContact k name email)
      ⟨{ s.world with tables := withContact s.world.tables c }, batch, s.nextId + 1⟩
  | editTask {batch taskId name status fields} : Move s (.editTask taskId name status fields)
      ⟨s.world.setClickUp (s.world.clickup.editTask taskId name status fields), batch, s.nextId⟩
  | deleteTask {batch taskId} : Move s (.deleteTask taskId)
      ⟨s.world.setClickUp (s.world.clickup.deleteTask taskId), batch, s.nextId⟩

end

theorem statement_cases (w : World) (t : Tables) :
    w.statement t = w ∨ (t.Constraints ∧ w.statement t = { w with tables := t }) := by
  unfold World.statement
  split
  · exact Or.inl rfl
  · next db hdb =>
    obtain rfl := Tables.check_ok hdb
    exact Or.inr ⟨db.valid, rfl⟩

theorem batchTurn_move {s s' : State} (h : batchTurn E cfg legacy turn s = some s') :
    Move E cfg legacy s (.nextTurn turn) s' := by
  unfold batchTurn at h
  split at h
  · cases h
  · cases h
    exact .stay le_rfl
  · cases h
    exact .stay le_rfl
  · next cache k ks hb =>
    cases h
    refine .provider k (some cache) turn ?_
    simp only [providerTurn, hb]
  · next k ks hb =>
    cases h
    rw [Legacy.syncTurn_eq]
    refine .legacy k true turn ?_
    simp only [legacyTurn, hb]

theorem operation_move {s s' : State} {e : Event} (h : operation E cfg legacy s e = some s') :
    Move E cfg legacy s e s' := by
  cases e with
  | pushCompany companyId turn =>
    cases h
    rw [pushCaught_eq]
    exact .provider companyId none turn rfl
  | startSync order error =>
    cases error with
    | none =>
      cases h
      exact .stay le_rfl
    | some _ =>
      cases h
      exact .stay le_rfl
  | legacyPush companyId turn =>
    cases h
    rw [Legacy.pushCaught_eq]
    exact .legacy companyId false turn rfl
  | startLegacySync order =>
    cases h
    exact .stay le_rfl
  | nextTurn turn => cases h
  | cleanup =>
    cases h
    exact .cleanup
  | renameCompany companyId name =>
    cases h
    rcases statement_cases s.world (renamed s.world.tables companyId name) with
      hw | ⟨ht, hw⟩
    · rw [hw]
      exact .stay le_rfl
    · rw [hw]
      exact .renameCompany ht
  | mergeCompanies primaryId duplicateId =>
    simp only [operation] at h
    split at h
    · split at h
      · cases h
        exact .stay le_rfl
      · next db hdb =>
        cases h
        exact .mergeCompanies rfl hdb
    · cases h
  | addSignal companyId signalType createdAt =>
    cases h
    rcases statement_cases s.world (withSignal s.world.tables
      { id := s.nextId, companyId := companyId, signalType := signalType,
        createdAt := createdAt }) with hw | ⟨ht, hw⟩
    · rw [hw]
      exact .stay (Nat.le_succ _)
    · rw [hw]
      exact .addSignal _ rfl rfl ht
  | addContact companyId name email =>
    cases h
    rcases statement_cases s.world (withContact s.world.tables
      { id := s.nextId, companyId := companyId, name := name, email := email }) with
      hw | ⟨ht, hw⟩
    · rw [hw]
      exact .stay (Nat.le_succ _)
    · rw [hw]
      exact .addContact _ rfl rfl ht
  | editTask taskId name status fields =>
    cases h
    exact .editTask
  | deleteTask taskId =>
    cases h
    exact .deleteTask

/-- Each step is one of the moves. -/
theorem step_move {s s' : State} {e : Event} (h : step E cfg legacy s e = some s') :
    Move E cfg legacy s e s' := by
  unfold step at h
  split at h
  · exact batchTurn_move h
  · exact operation_move h
  · cases h

/-- A step that takes a turn of `ClickUpService`. -/
theorem step_legacyTurn {s s' : State} {e : Event} {inBatch : Bool}
    (hs : step E cfg legacy s e = some s') (h : legacyTurn s e = some (k, inBatch, turn)) :
    s'.world = Legacy.takeTurn E legacy turn inBatch s.world k := by
  cases e with
  | legacyPush companyId turn' =>
    obtain ⟨rfl, rfl, rfl⟩ : companyId = k ∧ false = inBatch ∧ turn' = turn := by
      simpa [legacyTurn] using h
    rw [← Legacy.pushCaught_eq]
    cases hb : s.batch with
    | some batch => simp [step, hb] at hs
    | none =>
      simp only [step, hb, operation, Option.some.injEq] at hs
      rw [← hs]
  | nextTurn turn' =>
    unfold legacyTurn at h
    dsimp only at h
    split at h
    · next k' ks hb =>
      obtain ⟨rfl, rfl, rfl⟩ : k' = k ∧ true = inBatch ∧ turn' = turn := by
        simpa using h
      rw [← Legacy.syncTurn_eq]
      simp only [step, batchTurn, hb, Option.some.injEq] at hs
      rw [← hs]
    · cases h
  | _ => cases h

end Crm
end LeadPulse
