import LeadPulse.Crm.Turns

/-!
# The constraints along a run

A turn of either service changes no key and no reference, apart from the first integration of a
company. So the tables of a run meet the constraints of the database in every state
(`constraints_run`), and there is always a `Database` for the next merge.
-/

namespace LeadPulse

/-! ## Keys and references -/

/-- The columns that the constraints are about. -/
structure Keys where
  companies : List (ℕ × List Char × List Char)
  integrations : List ℕ
  contacts : List (ℕ × ℕ)
  signals : List (ℕ × ℕ)
  scrapeJobs : List ScrapeJob
  enrichmentJobs : List EnrichmentJobRow
  auditLogs : List AuditLogRow

namespace Tables

variable {t t' : Tables}

def keys (t : Tables) : Keys where
  companies := t.companies.map fun c => (c.id, c.name, c.domain)
  integrations := t.integrations.map fun i => i.companyId
  contacts := t.contacts.map fun c => (c.id, c.companyId)
  signals := t.signals.map fun s => (s.id, s.companyId)
  scrapeJobs := t.scrapeJobs
  enrichmentJobs := t.enrichmentJobs
  auditLogs := t.auditLogs

/-- Columns that are among others. -/
theorem map_of_map {α β γ : Type} {f : α → β} {as bs : List α} (g : β → γ)
    (h : as.map f = bs.map f) : (as.map fun a => g (f a)) = bs.map fun b => g (f b) := by
  have hmap : (as.map f).map g = (bs.map f).map g := by rw [h]
  rw [List.map_map, List.map_map] at hmap
  exact hmap

theorem forall_of_map {α β : Type} {f : α → β} {P : β → Prop} {as bs : List α}
    (h : as.map f = bs.map f) (hbs : ∀ b ∈ bs, P (f b)) : ∀ a ∈ as, P (f a) := by
  intro a ha
  have hmem : f a ∈ bs.map f := by
    rw [← h]
    exact List.mem_map_of_mem ha
  obtain ⟨b, hb, hfb⟩ := List.mem_map.mp hmem
  rw [← hfb]
  exact hbs b hb

/-- The constraints are about nothing else. -/
theorem Constraints.of_keys (h : t.Constraints) (hkeys : t'.keys = t.keys) : t'.Constraints := by
  have hcompanies : (t'.companies.map fun c => c.id) = t.companies.map fun c => c.id :=
    map_of_map Prod.fst (congrArg Keys.companies hkeys)
  have hnames : (t'.companies.map fun c => (c.name, c.domain)) =
      t.companies.map fun c => (c.name, c.domain) :=
    map_of_map Prod.snd (congrArg Keys.companies hkeys)
  have hintegrations : (t'.integrations.map fun i => i.companyId) =
      t.integrations.map fun i => i.companyId := congrArg Keys.integrations hkeys
  have hcontacts := congrArg Keys.contacts hkeys
  have hsignals := congrArg Keys.signals hkeys
  have hids : (t'.signals.map fun s => s.id) = t.signals.map fun s => s.id :=
    map_of_map Prod.fst hsignals
  have hscrapeJobs : t'.scrapeJobs = t.scrapeJobs := congrArg Keys.scrapeJobs hkeys
  have henrichmentJobs : t'.enrichmentJobs = t.enrichmentJobs :=
    congrArg Keys.enrichmentJobs hkeys
  have hauditLogs : t'.auditLogs = t.auditLogs := congrArg Keys.auditLogs hkeys
  constructor
  · unfold NotNull
    rw [hauditLogs]
    exact h.notNull
  · constructor
    · rw [hcompanies]
      exact forall_of_map (P := fun k => k ∈ t.companies.map fun c => c.id) hintegrations
        h.foreignKeys.integrations
    · rw [hcompanies]
      exact forall_of_map (P := fun p => p.2 ∈ t.companies.map fun c => c.id) hcontacts
        h.foreignKeys.contacts
    · rw [hcompanies]
      exact forall_of_map (P := fun p => p.2 ∈ t.companies.map fun c => c.id) hsignals
        h.foreignKeys.signals
    · rw [hcompanies, hscrapeJobs]
      exact h.foreignKeys.scrapeJobs
    · rw [hcompanies, henrichmentJobs]
      exact h.foreignKeys.enrichmentJobs
    · rw [hids, hauditLogs]
      exact h.foreignKeys.auditLogs
  · constructor
    · exact h.unique.companies.of_keys hcompanies
    · rw [hnames]
      exact h.unique.nameDomain
    · exact h.unique.integrations.of_keys hintegrations
    · exact h.unique.contacts.of_keys (map_of_map Prod.fst hcontacts)
    · exact h.unique.signals.of_keys hids
    · rw [hscrapeJobs]
      exact h.unique.scrapeJobs
    · rw [henrichmentJobs]
      exact h.unique.enrichmentJobs
    · rw [hauditLogs]
      exact h.unique.auditLogs

/-- The first integration of a company that is there. -/
theorem Constraints.addIntegration (h : t.Constraints) {i : CRMIntegration}
    (hnone : t.integration i.companyId = none) (hcompany : i.companyId ∈ t.companies.map (·.id)) :
    Constraints { t with toLeadTables := t.addIntegration i } where
  notNull := h.notNull
  foreignKeys :=
    { h.foreignKeys with
      integrations := by
        intro j hj
        rcases List.mem_append.mp hj with hold | hnew
        · exact h.foreignKeys.integrations j hold
        · rw [List.mem_singleton.mp hnew]
          exact hcompany }
  unique := { h.unique with integrations := h.unique.integrations.append hnone }

/-! ## What changes no key -/

theorem keys_leads {leads : LeadTables}
    (hcompanies : leads.companies.map (fun c => (c.id, c.name, c.domain)) =
      t.companies.map fun c => (c.id, c.name, c.domain))
    (hintegrations : leads.integrations.map (fun i => i.companyId) =
      t.integrations.map fun i => i.companyId) :
    keys { t with toLeadTables := leads } = t.keys := by
  unfold keys
  dsimp only
  rw [hcompanies, hintegrations]

theorem keys_modifyCompany (t : Tables) {j : ℕ} {f : Company → Company}
    (hf : ∀ c, ((f c).id, (f c).name, (f c).domain) = (c.id, c.name, c.domain)) :
    keys { t with toLeadTables := t.modifyCompany j f } = t.keys :=
  keys_leads (t := t) (Table.keys_modify hf) rfl

theorem keys_updateTask (t : Tables) (i : CRMIntegration) (task : ClickUpTask) :
    keys { t with toLeadTables := t.updateTask i task } = t.keys := by
  unfold LeadTables.updateTask
  split
  · apply keys_leads (t := t)
    · exact Table.keys_modify fun _ => rfl
    · exact Table.keys_modify fun _ => rfl
  · rfl

/-- The first integration of a company, which is written together with its columns. -/
theorem Constraints.link (h : t.Constraints) {i : CRMIntegration}
    (hnone : t.integration i.companyId = none) (hcompany : i.companyId ∈ t.companies.map (·.id))
    {j : ℕ} {f : Company → Company}
    (hf : ∀ c, ((f c).id, (f c).name, (f c).domain) = (c.id, c.name, c.domain)) :
    Constraints { t with toLeadTables := (t.addIntegration i).modifyCompany j f } :=
  (h.addIntegration hnone hcompany).of_keys
    (keys_modifyCompany { t with toLeadTables := t.addIntegration i } hf)

theorem keys_signals {f : SignalRow → SignalRow}
    (hf : ∀ s, ((f s).id, (f s).companyId) = (s.id, s.companyId)) :
    keys { t with signals := t.signals.map f } = t.keys := by
  unfold keys
  dsimp only
  rw [Table.keys_map hf]

theorem keys_contacts {f : Contact → Contact}
    (hf : ∀ c, ((f c).id, (f c).companyId) = (c.id, c.companyId)) :
    keys { t with contacts := t.contacts.map f } = t.keys := by
  unfold keys
  dsimp only
  rw [Table.keys_map hf]

end Tables

namespace Crm

open Tables (keys)

variable {E : Env} {cfg : Config} {legacy : ListConfig} {turn : Turn}
  {cache : Option TaskNameCache} {w w' : World} {company : Company} {taskId : String} {k : ℕ}

/-! ## Turns -/

theorem keys_postSignals :
    (postSignalsAsComments E turn taskId k w).tables.keys = w.tables.keys := by
  refine postSignals_keeps (fun w => w.tables.keys) fun w j s _ _ => ?_
  apply Tables.keys_signals
  intro r
  split
  · rfl
  · rfl

theorem keys_pushContacts : (pushContacts E cfg turn taskId k w).tables.keys = w.tables.keys := by
  refine pushContacts_keeps (fun w => w.tables.keys) fun w c s => ?_
  apply Tables.keys_contacts
  intro c'
  split
  · rfl
  · rfl

theorem keys_finishTurn (commentsTo contactsTo : String) :
    (finishTurn E cfg turn commentsTo contactsTo k w).tables.keys = w.tables.keys := by
  unfold finishTurn
  rw [keys_pushContacts, keys_postSignals]

theorem Pushed.constraints (h : w.tables.Constraints) (hc : w.tables.company k = some company)
    (hp : Pushed E cfg turn cache w company w') : w'.tables.Constraints := by
  have hcompany : company.id ∈ w.tables.companies.map (·.id) :=
    List.mem_map_of_mem (Table.mem_of_get hc)
  cases hp with
  | updated i s task hi hs =>
    exact h.of_keys ((keys_finishTurn task.id i.externalId).trans
      (Tables.keys_updateTask w.tables i task))
  | linked task hi hfind => exact h.link hi hcompany fun _ => rfl
  | created s task hi hfind hs =>
    have hlink : (w.setLeads (w.tables.createTask company task)).tables.Constraints :=
      h.link hi hcompany fun _ => rfl
    exact hlink.of_keys (keys_finishTurn task.id task.id)

theorem constraints_takeTurn (h : w.tables.Constraints) :
    (takeTurn E cfg turn cache w k).tables.Constraints :=
  takeTurn_keeps (P := fun w => w.tables.Constraints) h fun _ _ hc hp => hp.constraints h hc

/-- `ClickUpService` adds no rows. -/
theorem Legacy.keys_takeTurn {inBatch : Bool} :
    (Legacy.takeTurn E legacy turn inBatch w k).tables.keys = w.tables.keys := by
  apply Legacy.takeTurn_keeps (P := fun w' => w'.tables.keys = w.tables.keys) rfl
  intro company w' hc hp
  cases hp with
  | updated leads s task taskId hid hs hleads =>
    rw [keys_postSignals]
    rcases hleads with rfl | rfl
    · rfl
    · exact Tables.keys_modifyCompany w.tables fun _ => rfl
  | found task hid hfind => exact Tables.keys_modifyCompany w.tables fun _ => rfl
  | created s task hid hfind hs =>
    rw [keys_postSignals]
    exact Tables.keys_modifyCompany w.tables fun _ => rfl

/-! ## Runs -/

theorem constraints_cleanup (h : w.tables.Constraints) :
    (cleanupClickupLinks w).tables.Constraints := by
  have hcompanies : (cleanupClickupLinks w).tables.companies.map
      (fun c => (c.id, c.name, c.domain)) =
        w.tables.companies.map fun c => (c.id, c.name, c.domain) := by
    apply Table.keys_map
    intro c
    dsimp only
    split
    · split
      · rfl
      · rfl
    · split
      · rfl
      · rfl
  have hcontacts : (cleanupClickupLinks w).tables.contacts.map (fun c => (c.id, c.companyId)) =
      w.tables.contacts.map fun c => (c.id, c.companyId) := by
    apply Table.keys_map
    intro c
    split
    · rfl
    · rfl
  have hsignals : (cleanupClickupLinks w).tables.signals.map (fun s => (s.id, s.companyId)) =
      w.tables.signals.map fun s => (s.id, s.companyId) := by
    apply Table.keys_map
    intro s
    split
    · rfl
    · rfl
  -- without the integrations
  have hnone : Tables.Constraints { w.tables with integrations := [] } :=
    { h with
      foreignKeys := { h.foreignKeys with integrations := fun i hi => absurd hi List.not_mem_nil }
      unique := { h.unique with integrations := List.nodup_nil } }
  apply hnone.of_keys
  unfold keys
  rw [hcompanies, hcontacts, hsignals]
  rfl

theorem constraints_step {s s' : State} {e : Event} (h : s.world.tables.Constraints)
    (hs : step E cfg legacy s e = some s') : s'.world.tables.Constraints := by
  cases step_move hs with
  | stay hn => exact h
  | provider k cache turn hturn => exact constraints_takeTurn h
  | legacy k inBatch turn hturn => exact h.of_keys Legacy.keys_takeTurn
  | cleanup => exact constraints_cleanup h
  | renameCompany ht => exact ht
  | mergeCompanies h₀ hm => exact Database.valid _
  | addSignal r hid hr ht => exact ht
  | addContact c hid hc ht => exact ht
  | editTask => exact h
  | deleteTask => exact h

/-- The tables meet the constraints in every state of a run. -/
theorem constraints_run (E : Env) (cfg : Config) (legacy : ListConfig) (start : State)
    (events : List Event) (h₀ : start.world.tables.Constraints) :
    Run.AllStates (step E cfg legacy) (fun s => s.world.tables.Constraints) start events :=
  Run.AllStates.of_step (fun _ _ _ h hs => constraints_step h hs) h₀ events

/-- So every merge that is asked for between two operations can be tried. -/
theorem step_mergeCompanies {s : State} (h : s.world.tables.Constraints) (hb : s.batch = none)
    (p d : ℕ) : step E cfg legacy s (.mergeCompanies p d) ≠ none := by
  simp only [step, hb, operation]
  rw [dif_pos h]
  split
  · exact Option.some_ne_none _
  · exact Option.some_ne_none _

end Crm
end LeadPulse
