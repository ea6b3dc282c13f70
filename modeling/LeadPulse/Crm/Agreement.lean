import LeadPulse.Crm.Turns

/-!
# The two copies of a link

The task of a company is in its column `clickup_task_id` and in the row of
`crm_integrations`. The provider writes both, `ClickUpService` only the column: the copies
agree all along a run exactly if `ClickUpService` never sets the column
(`linksAgree_iff`).
-/

namespace LeadPulse
namespace Crm

variable {E : Env} {cfg : Config} {legacy : ListConfig} {turn : Turn}
  {cache : Option TaskNameCache} {w w' : World} {leads : LeadTables} {company : Company}
  {task : ClickUpTask} {k : ℕ}

/-- The id in the company's integration. -/
def externalId (leads : LeadTables) (k : ℕ) : Option String :=
  (leads.integration k).map (·.externalId)

/-- For every company the two copies are both absent or equal. -/
def LinksAgree (leads : LeadTables) : Prop :=
  ∀ c ∈ leads.companies, c.clickupTaskId = externalId leads c.id

/-! ## Writes of the provider -/

theorem externalId_modifyIntegration (leads : LeadTables) (j k : ℕ)
    {f : CRMIntegration → CRMIntegration} (hid : ∀ i, (f i).companyId = i.companyId)
    (hf : ∀ i, (f i).externalId = i.externalId) :
    externalId (leads.modifyIntegration j f) k = externalId leads k := by
  unfold externalId LeadTables.modifyIntegration LeadTables.integration
  dsimp only
  rw [Table.get_modify hid]
  split
  · rw [Option.map_map]
    congr 1
    funext i
    exact hf i
  · rfl

/-- The new integration of a company that had none. -/
theorem externalId_addIntegration (i : CRMIntegration) (h : leads.integration i.companyId = none)
    (k : ℕ) : externalId (leads.addIntegration i) k =
      if k = i.companyId then some i.externalId else externalId leads k := by
  unfold externalId LeadTables.addIntegration LeadTables.integration at *
  dsimp only
  cases hk : Table.get CRMIntegration.companyId leads.integrations k with
  | some j =>
    have hne : k ≠ i.companyId := by
      intro he
      rw [he, h] at hk
      cases hk
    rw [Table.get_append_of_some hk, if_neg hne]
  | none =>
    rw [Table.get_append_of_none hk]
    by_cases he : i.companyId = k
    · rw [if_pos he, if_pos he.symm]
      rfl
    · rw [if_neg he, if_neg fun h => he h.symm]

/-- A company that gets an integration had none, so that no link is changed. -/
theorem externalId_addIntegration_of_some {i : CRMIntegration} {taskId : String}
    (hi : leads.integration i.companyId = none) (h : externalId leads k = some taskId) :
    externalId (leads.addIntegration i) k = some taskId := by
  rw [externalId_addIntegration i hi, h]
  split
  · next he =>
    unfold externalId at h
    rw [he, hi] at h
    cases h
  · rfl

theorem externalId_updateTask (leads : LeadTables) (i : CRMIntegration) (task : ClickUpTask)
    (k : ℕ) : externalId (leads.updateTask i task) k = externalId leads k := by
  unfold LeadTables.updateTask
  split
  · exact externalId_modifyIntegration leads _ k (fun _ => rfl) fun _ => rfl
  · rfl

/-- A write that leaves the copies alone. -/
theorem LinksAgree.modifyCompany (h : LinksAgree leads) (j : ℕ) {f : Company → Company}
    (hid : ∀ c, (f c).id = c.id) (hf : ∀ c, (f c).clickupTaskId = c.clickupTaskId) :
    LinksAgree (leads.modifyCompany j f) := by
  intro c' hc'
  obtain ⟨c, hc, rfl⟩ := List.mem_map.mp hc'
  have hagree : c.clickupTaskId = externalId leads c.id := h c hc
  split
  · rw [hf, hid]
    exact hagree
  · exact hagree

theorem LinksAgree.updateTask (h : LinksAgree leads) (i : CRMIntegration) (task : ClickUpTask) :
    LinksAgree (leads.updateTask i task) := by
  unfold LeadTables.updateTask
  split
  · apply LinksAgree.modifyCompany
    · intro c hc
      rw [externalId_modifyIntegration]
      · exact h c hc
      · exact fun _ => rfl
      · exact fun _ => rfl
    · exact fun _ => rfl
    · exact fun _ => rfl
  · exact h

/-- Both copies are written at once. -/
theorem LinksAgree.link (h : LinksAgree leads) (hi : leads.integration company.id = none)
    {i : CRMIntegration} (hcompany : i.companyId = company.id) {f : Company → Company}
    (hid : ∀ c, (f c).id = c.id) (hf : ∀ c, (f c).clickupTaskId = some i.externalId) :
    LinksAgree ((leads.addIntegration i).modifyCompany company.id f) := by
  intro c' hc'
  obtain ⟨c, hc, rfl⟩ := List.mem_map.mp hc'
  have hext (k : ℕ) : externalId ((leads.addIntegration i).modifyCompany company.id f) k =
      if k = company.id then some i.externalId else externalId leads k := by
    rw [← hcompany]
    apply externalId_addIntegration
    rw [hcompany]
    exact hi
  have hagree : c.clickupTaskId = externalId leads c.id := h c hc
  rw [hext]
  split
  · next he =>
    rw [hid, if_pos he]
    exact hf c
  · exact hagree

theorem LinksAgree.pushed (h : LinksAgree w.tables.toLeadTables)
    (hp : Pushed E cfg turn cache w company w') : LinksAgree w'.tables.toLeadTables := by
  cases hp with
  | updated i s task hi hs =>
    unfold finishTurn
    rw [leads_pushContacts, leads_postSignals]
    exact h.updateTask i task
  | linked task hi hfind => exact h.link hi rfl (fun _ => rfl) fun _ => rfl
  | created s task hi hfind hs =>
    unfold finishTurn
    rw [leads_pushContacts, leads_postSignals]
    exact h.link hi rfl (fun _ => rfl) fun _ => rfl

/-- A link, once it is there, stays as it is. -/
theorem Pushed.keeps_externalId {taskId : String} (hp : Pushed E cfg turn cache w company w')
    (h : externalId w.tables.toLeadTables k = some taskId) :
    externalId w'.tables.toLeadTables k = some taskId := by
  cases hp with
  | updated i s task hi hs =>
    unfold finishTurn
    rw [leads_pushContacts, leads_postSignals]
    exact (externalId_updateTask w.tables.toLeadTables i task k).trans h
  | linked task hi hfind => exact externalId_addIntegration_of_some hi h
  | created s task hi hfind hs =>
    unfold finishTurn
    rw [leads_pushContacts, leads_postSignals]
    exact externalId_addIntegration_of_some hi h

/-! ## Writes of `ClickUpService` -/

/-- The turn of `ClickUpService` creates a task or, in a batch, takes one over. -/
def writesColumn (legacy : ListConfig) (w : World) (k : ℕ) (inBatch : Bool) (turn : Turn) :
    Bool :=
  match w.tables.company k with
  | none => false
  | some company =>
    match nonEmpty company.clickupTaskId,
      Legacy.findFirst legacy turn inBatch w.clickup company.domain with
    | some _, _ => false
    | none, .error _ => false
    | none, .ok (some _) => true
    | none, .ok none => turn.faults .createTask = none

theorem LinksAgree.takeLegacyTurn {inBatch : Bool} (h : LinksAgree w.tables.toLeadTables)
    (hnot : writesColumn legacy w k inBatch turn = false) :
    LinksAgree (Legacy.takeTurn E legacy turn inBatch w k).tables.toLeadTables := by
  apply Legacy.takeTurn_keeps (P := fun w => LinksAgree w.tables.toLeadTables) h
  intro company w' hc hp
  unfold writesColumn at hnot
  rw [hc] at hnot
  dsimp only at hnot
  cases hp with
  | updated leads s task taskId hid hs hleads =>
    rw [leads_postSignals]
    rcases hleads with rfl | rfl
    · exact h
    · exact h.modifyCompany _ (fun _ => rfl) fun _ => rfl
  | found task hid hfind => simp [hid, hfind] at hnot
  | created s task hid hfind hs =>
    have hcall := (attempt_ok.mp hs).1
    simp [hid, hfind, hcall] at hnot

/-- What a turn of `ClickUpService` that sets the column does to the companies. -/
theorem leads_takeLegacyTurn {inBatch : Bool}
    (h : writesColumn legacy w k inBatch turn = true) :
    ∃ company, w.tables.company k = some company ∧ nonEmpty company.clickupTaskId = none ∧
      ∃ f taskId, (Legacy.takeTurn E legacy turn inBatch w k).tables.toLeadTables =
          w.tables.modifyCompany company.id f ∧
        (∀ c, (f c).id = c.id ∧ (f c).clickupTaskId = some taskId) ∧ taskId ≠ "" := by
  unfold writesColumn at h
  split at h
  · cases h
  · next company hc =>
    refine ⟨company, hc, ?_⟩
    unfold Legacy.takeTurn Legacy.pushLoaded
    rw [hc]
    dsimp only
    split at h
    · cases h
    · cases h
    · next task hid hfind =>
      rw [hid, hfind]
      refine ⟨rfl, _, task.id, rfl, fun c => ⟨rfl, rfl⟩, ?_⟩
      obtain ⟨t, -, rfl⟩ := Legacy.findFirst_spec hfind
      exact t.id_ne
    · next hid hfind =>
      obtain ⟨s, task, hs⟩ := createCompanyTask_of_none E legacy company w.clickup
        (of_decide_eq_true h)
      rw [hid, hfind]
      unfold Legacy.createTask
      dsimp only
      rw [hs]
      refine ⟨rfl, _, task.id, leads_postSignals, fun c => ⟨rfl, rfl⟩, ?_⟩
      obtain ⟨t, rfl, -⟩ := ClickUp.createTask_spec (createCompanyTask_ok hs)
      exact t.id_ne

theorem nonEmpty_some {taskId : String} (h : taskId ≠ "") :
    nonEmpty (some taskId) = some taskId := by
  simp [nonEmpty, h]

/-- Setting the column of a company without a link leaves its integration behind. -/
theorem not_linksAgree_takeLegacyTurn {inBatch : Bool} (h : LinksAgree w.tables.toLeadTables)
    (hw : writesColumn legacy w k inBatch turn = true) :
    ¬ LinksAgree (Legacy.takeTurn E legacy turn inBatch w k).tables.toLeadTables := by
  obtain ⟨company, hc, hid, f, taskId, hleads, hf, hne⟩ := leads_takeLegacyTurn (E := E) hw
  rw [hleads]
  intro hagree
  have hmem : company ∈ w.tables.companies := Table.mem_of_get hc
  have hold : company.clickupTaskId = externalId w.tables.toLeadTables company.id := h company hmem
  have hnew : f company ∈ (w.tables.modifyCompany company.id f).companies := by
    refine List.mem_map.mpr ⟨company, hmem, ?_⟩
    rw [if_pos rfl]
  have hafter := hagree (f company) hnew
  rw [(hf company).1, (hf company).2] at hafter
  -- the integration has not changed
  have hsame : some taskId = company.clickupTaskId := hafter.trans hold.symm
  rw [← hsame, nonEmpty_some hne] at hid
  cases hid

/-! ## Runs -/

/-- A step in which `ClickUpService` sets the column of a company. -/
def setsColumn (legacy : ListConfig) (s : State) (e : Event) : Bool :=
  match legacyTurn s e with
  | none => false
  | some (k, inBatch, turn) => writesColumn legacy s.world k inBatch turn

theorem LinksAgree.cleanup (w : World) :
    LinksAgree (cleanupClickupLinks w).tables.toLeadTables := by
  intro c' hc'
  obtain ⟨c, -, rfl⟩ := List.mem_map.mp hc'
  have hnone : externalId (cleanupClickupLinks w).tables.toLeadTables = fun _ => none := rfl
  rw [hnone]
  dsimp only
  by_cases hlink : c.clickupTaskId = none
  · rw [if_neg (not_not_intro hlink)]
    split
    · exact hlink
    · exact hlink
  · rw [if_pos hlink]
    split
    · rfl
    · rfl

/-- The companies and integrations that a merge leaves. -/
theorem mergeCompanies_leads {U : Unicode} {contactOrder : RowOrder Contact}
    {signalOrder : RowOrder SignalRow} {p d : ℕ} {db db' : Database}
    (h : Dedup.mergeCompanies U contactOrder signalOrder p d db = .ok db') :
    db'.tables.companies = Table.remove Company.id db.tables.companies d ∧
      db'.tables.integrations =
        Table.remove CRMIntegration.companyId db.tables.integrations d := by
  obtain ⟨-, -, -, hrows⟩ := Dedup.mergeCompanies_ok.mp h
  rw [Dedup.mergeRows_tables hrows]
  exact ⟨rfl, rfl⟩

theorem LinksAgree.merge {U : Unicode} {contactOrder : RowOrder Contact}
    {signalOrder : RowOrder SignalRow} {p d : ℕ} {db db' : Database}
    (h : LinksAgree db.tables.toLeadTables)
    (hm : Dedup.mergeCompanies U contactOrder signalOrder p d db = .ok db') :
    LinksAgree db'.tables.toLeadTables := by
  obtain ⟨hcompanies, hintegrations⟩ := mergeCompanies_leads hm
  intro c hc
  rw [hcompanies] at hc
  obtain ⟨hmem, hne⟩ := List.mem_filter.mp hc
  have hk : c.id ≠ d := of_decide_eq_true hne
  unfold externalId LeadTables.integration
  rw [hintegrations, Table.get_remove, if_neg hk]
  exact h c hmem

theorem LinksAgree.step {s s' : State} {e : Event} (h : LinksAgree s.world.tables.toLeadTables)
    (hnot : setsColumn legacy s e = false) (hs : step E cfg legacy s e = some s') :
    LinksAgree s'.world.tables.toLeadTables := by
  cases step_move hs with
  | stay hn => exact h
  | provider k cache turn hturn =>
    exact takeTurn_keeps (P := fun w => LinksAgree w.tables.toLeadTables) h
      fun _ _ _ hp => h.pushed hp
  | legacy k inBatch turn hturn =>
    unfold setsColumn at hnot
    rw [hturn] at hnot
    exact h.takeLegacyTurn hnot
  | cleanup => exact .cleanup s.world
  | renameCompany => exact h.modifyCompany _ (fun _ => rfl) fun _ => rfl
  | mergeCompanies h₀ hm =>
    rw [← h₀] at h
    exact h.merge hm
  | addSignal r hid hr => exact h
  | addContact c hid hc => exact h
  | editTask => exact h
  | deleteTask => exact h

/-- The copies of the links agree in every state of a run, exactly if no step of the run lets
`ClickUpService` set the column of a company. -/
theorem linksAgree_iff (E : Env) (cfg : Config) (legacy : ListConfig) (start : State)
    (events : List Event) (h₀ : LinksAgree start.world.tables.toLeadTables) :
    Run.AllStates (step E cfg legacy) (fun s => LinksAgree s.world.tables.toLeadTables)
        start events ↔
      Run.AllSteps (step E cfg legacy) (fun s e => setsColumn legacy s e = false)
        start events := by
  refine Run.allStates_iff_allSteps (I := fun s => LinksAgree s.world.tables.toLeadTables)
    (fun _ h => h) (fun s e s' h hnot hs => h.step hnot hs) ?_ h₀ events
  intro s e s' h hset hs
  rw [Bool.not_eq_false] at hset
  unfold setsColumn at hset
  split at hset
  · cases hset
  · next k inBatch turn hturn =>
    rw [step_legacyTurn hs hturn]
    exact not_linksAgree_takeLegacyTurn h hset

instance (leads : LeadTables) : Decidable (LinksAgree leads) :=
  inferInstanceAs (Decidable (∀ c ∈ leads.companies, c.clickupTaskId = externalId leads c.id))

/-- A push, a push with `ClickUpService`, a cleanup and a batch. -/
theorem linksAgree_pushes :
    Run.AllStates (step Env.plain Config.plain Config.plain.toListConfig)
      (fun s => LinksAgree s.world.tables.toLeadTables)
      (.fresh [qualifiedCompany 1 "Acme", qualifiedCompany 2 "Bolt"])
      [.pushCompany 1 { now := 1 }, .legacyPush 1 { now := 2 }, .cleanup,
        .startSync (.asStored _) none, .nextTurn { now := 3 }, .nextTurn { now := 3 }] :=
  (linksAgree_iff Env.plain Config.plain Config.plain.toListConfig _ _ (by decide)).mpr
    (Run.AllSteps.of_check (fun _ _ h => of_decide_eq_true h) (by decide +kernel))

/-- A company that `ClickUpService` pushes has a task in its column and no integration. -/
theorem not_linksAgree_legacyPush :
    LinksAgree (State.fresh [qualifiedCompany 1 "Acme"]).world.tables.toLeadTables ∧
      ¬ Run.AllStates (step Env.plain Config.plain Config.plain.toListConfig)
        (fun s => LinksAgree s.world.tables.toLeadTables)
        (.fresh [qualifiedCompany 1 "Acme"]) [.legacyPush 1 { now := 1 }] := by
  refine ⟨by decide, ?_⟩
  apply Run.not_allStates (q := fun s => ¬ LinksAgree s.world.tables.toLeadTables)
  · intro s h
    rw [decide_eq_false_iff_not]
    exact not_not_intro h
  · decide +kernel

end Crm
end LeadPulse
