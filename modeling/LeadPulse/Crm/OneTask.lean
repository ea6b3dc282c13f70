import LeadPulse.Crm.Agreement

/-!
# One task for each company

`ClickUpService` knows a company's task from its column, the provider from its integration.
As long as the provider creates no task for a company whose column has one, at most one task
is ever created for each company (`created_nodup`).
-/

namespace LeadPulse
namespace Crm

variable {E : Env} {cfg : Config} {legacy : ListConfig} {turn : Turn}
  {cache : Option TaskNameCache} {w w' : World} {leads : LeadTables} {company : Company}
  {created : List (ℕ × String)} {taskId : String} {k : ℕ}

/-- No company has two of the created tasks, and a company with one of them has a task in its
column. -/
structure OneTask (created : List (ℕ × String)) (leads : LeadTables) : Prop where
  nodup : (created.map (·.1)).Nodup
  linked : ∀ c ∈ leads.companies, c.id ∈ created.map (·.1) → nonEmpty c.clickupTaskId ≠ none

theorem OneTask.sublist {leads' : LeadTables} (h : OneTask created leads)
    (hsub : ∀ c ∈ leads'.companies, c ∈ leads.companies) : OneTask created leads' where
  nodup := h.nodup
  linked c hc := h.linked c (hsub c hc)

/-- No link is taken out of a column. -/
theorem OneTask.map (h : OneTask created leads) {leads' : LeadTables} {f : Company → Company}
    (hcompanies : leads'.companies = leads.companies.map f) (hid : ∀ c, (f c).id = c.id)
    (hf : ∀ c, nonEmpty c.clickupTaskId ≠ none → nonEmpty (f c).clickupTaskId ≠ none) :
    OneTask created leads' where
  nodup := h.nodup
  linked := by
    intro c' hc' hcreated
    rw [hcompanies] at hc'
    obtain ⟨c, hc, rfl⟩ := List.mem_map.mp hc'
    rw [hid] at hcreated
    exact hf c (h.linked c hc hcreated)

theorem OneTask.modifyCompany (h : OneTask created leads) (j : ℕ) {f : Company → Company}
    (hid : ∀ c, (f c).id = c.id)
    (hf : ∀ c, nonEmpty c.clickupTaskId ≠ none → nonEmpty (f c).clickupTaskId ≠ none) :
    OneTask created (leads.modifyCompany j f) := by
  refine h.map rfl (Table.key_modify hid) fun c hc => ?_
  split
  · exact hf c hc
  · exact hc

/-- A column that is written has a task. -/
theorem nonEmpty_ne_none (h : taskId ≠ "") : nonEmpty (some taskId) ≠ none := by
  rw [nonEmpty_some h]
  exact Option.some_ne_none taskId

/-- A task is created for a company without one, and goes to its column. -/
theorem OneTask.create (h : OneTask created leads) (hk : k ∉ created.map (·.1))
    {f : Company → Company} (hf : ∀ c, (f c).clickupTaskId = some taskId) (hne : taskId ≠ "") :
    OneTask ((k, taskId) :: created) (leads.modifyCompany k f) where
  nodup := List.nodup_cons.mpr ⟨hk, h.nodup⟩
  linked := by
    intro c' hc' hcreated
    obtain ⟨c, hc, rfl⟩ := List.mem_map.mp hc'
    split at hcreated
    · next he =>
      rw [if_pos he, hf]
      exact nonEmpty_ne_none hne
    · next he =>
      rw [if_neg he]
      apply h.linked c hc
      -- the new task is not for this company
      rcases List.mem_cons.mp hcreated with hnew | hold
      · exact absurd hnew he
      · exact hold

/-- A company without a task in its column has none of the created tasks. -/
theorem OneTask.not_mem_created (h : OneTask created leads)
    (hc : leads.company k = some company) (hid : nonEmpty company.clickupTaskId = none) :
    company.id ∉ created.map (·.1) :=
  fun hmem => h.linked company (Table.mem_of_get hc) hmem hid

/-! ## Turns -/

theorem companies_updateTask (leads : LeadTables) (i : CRMIntegration) (task : ClickUpTask) :
    ∃ f : Company → Company, (leads.updateTask i task).companies = leads.companies.map f ∧
      ∀ c, (f c).id = c.id ∧ (f c).clickupTaskId = c.clickupTaskId := by
  unfold LeadTables.updateTask
  split
  · refine ⟨_, rfl, fun c => ?_⟩
    split
    · exact ⟨rfl, rfl⟩
    · exact ⟨rfl, rfl⟩
  · exact ⟨id, (List.map_id _).symm, fun c => ⟨rfl, rfl⟩⟩

/-- The provider creates a task for a company that has one in its column. -/
def createsAgain (E : Env) (cfg : Config) (w : World) (k : ℕ) (cache : Option TaskNameCache)
    (turn : Turn) : Bool :=
  match w.tables.company k with
  | none => false
  | some company =>
    match nonEmpty company.clickupTaskId, w.tables.integration company.id,
      findExisting E cfg turn cache w company with
    | some _, none, .ok none => turn.faults .createTask = none
    | _, _, _ => false

theorem OneTask.takeTurn (h : OneTask w.created w.tables.toLeadTables)
    (hnot : createsAgain E cfg w k cache turn = false) :
    OneTask (takeTurn E cfg turn cache w k).created
      (takeTurn E cfg turn cache w k).tables.toLeadTables := by
  apply takeTurn_keeps (P := fun w => OneTask w.created w.tables.toLeadTables) h
  intro company w' hc hp
  cases hp with
  | updated i s task hi hs =>
    unfold finishTurn
    rw [leads_pushContacts, leads_postSignals, created_pushContacts, created_postSignals]
    obtain ⟨f, hcompanies, hf⟩ := companies_updateTask w.tables.toLeadTables i task
    refine h.map hcompanies (fun c => (hf c).1) fun c hlink => ?_
    rw [(hf c).2]
    exact hlink
  | linked task hi hfind =>
    obtain ⟨t, rfl, -⟩ := findExisting_spec hfind
    have hlinked : OneTask w.created (w.tables.addIntegration
        { companyId := company.id, externalId := t.id, externalUrl := t.url,
          externalStatus := t.status }) := h.sublist fun _ h => h
    exact hlinked.modifyCompany _ (fun _ => rfl) fun _ _ => nonEmpty_ne_none t.id_ne
  | created s task hi hfind hs =>
    unfold finishTurn
    rw [leads_pushContacts, leads_postSignals, created_pushContacts, created_postSignals]
    obtain ⟨t, rfl, -⟩ := ClickUp.createTask_spec (createCompanyTask_ok hs)
    -- the column was empty, so that this is the first task
    have hid : nonEmpty company.clickupTaskId = none := by
      cases hlink : nonEmpty company.clickupTaskId with
      | none => rfl
      | some taskId =>
        have hcall := (attempt_ok.mp hs).1
        simp [createsAgain, hc, hlink, hi, hfind, hcall] at hnot
    have hk := h.not_mem_created hc hid
    have hadd : OneTask w.created (w.tables.addIntegration
        { companyId := company.id, externalId := t.id, externalUrl := t.url,
          externalStatus := some "suspect" }) := h.sublist fun _ h => h
    exact hadd.create hk (fun _ => rfl) t.id_ne

theorem OneTask.takeLegacyTurn {inBatch : Bool} (h : OneTask w.created w.tables.toLeadTables) :
    OneTask (Legacy.takeTurn E legacy turn inBatch w k).created
      (Legacy.takeTurn E legacy turn inBatch w k).tables.toLeadTables := by
  apply Legacy.takeTurn_keeps (P := fun w => OneTask w.created w.tables.toLeadTables) h
  intro company w' hc hp
  cases hp with
  | updated leads s task taskId hid hs hleads =>
    rw [leads_postSignals, created_postSignals]
    rcases hleads with rfl | rfl
    · exact h
    · exact h.modifyCompany _ (fun _ => rfl) fun _ hlink => hlink
  | found task hid hfind =>
    obtain ⟨t, -, rfl⟩ := Legacy.findFirst_spec hfind
    exact h.modifyCompany _ (fun _ => rfl) fun _ _ => nonEmpty_ne_none t.id_ne
  | created s task hid hfind hs =>
    rw [leads_postSignals, created_postSignals]
    obtain ⟨t, rfl, -⟩ := ClickUp.createTask_spec (createCompanyTask_ok hs)
    exact h.create (h.not_mem_created hc hid) (fun _ => rfl) t.id_ne

/-! ## Runs -/

/-- A step in which the provider creates a task for a company that has one in its column. -/
def secondTask (E : Env) (cfg : Config) (s : State) (e : Event) : Bool :=
  match providerTurn s e with
  | none => false
  | some (k, cache, turn) => createsAgain E cfg s.world k cache turn

def Event.isCleanup : Event → Bool
  | .cleanup => true
  | _ => false

theorem OneTask.step {s s' : State} {e : Event}
    (h : OneTask s.world.created s.world.tables.toLeadTables)
    (hclean : e.isCleanup = false) (hnot : secondTask E cfg s e = false)
    (hs : step E cfg legacy s e = some s') :
    OneTask s'.world.created s'.world.tables.toLeadTables := by
  cases step_move hs with
  | stay hn => exact h
  | provider k cache turn hturn =>
    unfold secondTask at hnot
    rw [hturn] at hnot
    exact h.takeTurn hnot
  | legacy k inBatch turn hturn => exact h.takeLegacyTurn
  | cleanup => cases hclean
  | renameCompany => exact h.modifyCompany _ (fun _ => rfl) fun _ hlink => hlink
  | mergeCompanies h₀ hm =>
    obtain ⟨hcompanies, -⟩ := mergeCompanies_leads hm
    refine h.sublist fun c hc => ?_
    rw [hcompanies, h₀] at hc
    exact (List.mem_filter.mp hc).1
  | addSignal r hid hr => exact h
  | addContact c hid hc => exact h
  | editTask => exact h
  | deleteTask => exact h

/-- In a run without a cleanup in which the provider creates no task for a company that has one
in its column, at most one task is created for each company. -/
theorem created_nodup (E : Env) (cfg : Config) (legacy : ListConfig) (start : State)
    (events : List Event) (h₀ : start.world.created = [])
    (hC : Run.AllSteps (step E cfg legacy)
      (fun s e => e.isCleanup = false ∧ secondTask E cfg s e = false) start events) :
    Run.AllStates (step E cfg legacy) (fun s => (s.world.created.map (·.1)).Nodup)
      start events := by
  have hstart : OneTask start.world.created start.world.tables.toLeadTables := by
    rw [h₀]
    exact ⟨List.nodup_nil, fun c _ hmem => absurd hmem (List.not_mem_nil)⟩
  have hinv : Run.AllStates (step E cfg legacy)
      (fun s => OneTask s.world.created s.world.tables.toLeadTables) start events :=
    Run.AllStates.of_inv (fun s e s' h hc hs => h.step hc.1 hc.2 hs) hstart hC
  exact hinv.mono fun s h => h.nodup

/-- Pushes of both services, with a new name in between. -/
theorem created_nodup_renamed :
    Run.AllStates (step Env.plain Config.plain Config.plain.toListConfig)
      (fun s => (s.world.created.map (·.1)).Nodup)
      (.fresh [qualifiedCompany 1 "Acme", qualifiedCompany 2 "Bolt"])
      [.pushCompany 1 { now := 1 }, .renameCompany 1 "Acme BV".toList, .pushCompany 1 { now := 2 },
        .legacyPush 1 { now := 3 }, .startSync (.asStored _) none, .nextTurn { now := 4 },
        .nextTurn { now := 4 }] :=
  created_nodup Env.plain Config.plain Config.plain.toListConfig _ _ rfl
    (Run.AllSteps.of_check (fun _ _ h => of_decide_eq_true h) (by decide +kernel))

/-- `ClickUpService` creates a task, the company gets a new name, and the provider neither has
an integration nor finds the task. -/
theorem not_created_nodup_renamed :
    ¬ Run.AllStates (step Env.plain Config.plain Config.plain.toListConfig)
      (fun s => (s.world.created.map (·.1)).Nodup)
      (.fresh [qualifiedCompany 1 "Acme"])
      [.legacyPush 1 { now := 1 }, .renameCompany 1 "Acme BV".toList,
        .pushCompany 1 { now := 2 }] := by
  apply Run.not_allStates (q := fun s => ¬ (s.world.created.map (·.1)).Nodup)
  · intro s h
    rw [decide_eq_false_iff_not]
    exact not_not_intro h
  · decide +kernel

end Crm
end LeadPulse
