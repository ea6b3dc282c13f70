import LeadPulse.Crm.Agreement

/-!
# The batch and single pushes

The batch looks names up in a cache that it fills before its loop, `push_company` in ClickUp as
it is. A turn of the batch does the same as a push of the company as long as the cache has what
the search would find (`CacheAgrees`), and both end with the same links and created tasks
exactly if that holds at every turn (`syncQualifiedCompanies_iff`).
-/

namespace LeadPulse
namespace Crm

variable {E : Env} {cfg : Config} {now : Time} {cache : TaskNameCache} {w w' : World}
  {company : Company} {k : ℕ}

/-- `push_company` on each of the companies, with the errors caught. -/
def pushEach (E : Env) (cfg : Config) (now : Time) (w : World) (companyIds : List ℕ) : World :=
  companyIds.foldl (pushCaught E cfg { now := now }) w

/-- The push of the company gets as far as the search for its name: it has no integration, and
neither its domain nor a namesake leads to a task. -/
def searchesName (E : Env) (cfg : Config) (w : World) (company : Company) : Bool :=
  match w.tables.integration company.id,
    findExistingTask { now := 0 } cfg.toListConfig w.clickup company.domain,
    namesake E w.tables company with
  | none, .ok none, none => true
  | none, .ok none, some i => w.clickup.getTask i.externalId = .error .notFound
  | _, _, _ => false

/-- If the name of the company is searched for, the cache has what the search finds. -/
def CacheAgrees (E : Env) (cfg : Config) (cache : TaskNameCache) (w : World) (k : ℕ) : Prop :=
  ∀ company ∈ w.tables.company k, searchesName E cfg w company = true →
    (cache.lookup (E.unicode.lower company.name)).map (·.parse) =
      w.clickup.findTaskByName E.unicode cfg.listId company.name

/-- The same links of companies to tasks, in both copies, and the same created tasks. -/
structure SameOutcome (w w' : World) : Prop where
  external : ∀ k, externalId w.tables.toLeadTables k = externalId w'.tables.toLeadTables k
  column : ∀ k, (w.tables.company k).map (·.clickupTaskId) =
    (w'.tables.company k).map (·.clickupTaskId)
  created : ∀ p, p ∈ w.created ↔ p ∈ w'.created

/-! ## A turn that agrees -/

variable {turn : Turn}

/-- The search by the domain, in a turn whose calls are answered. -/
theorem findExistingTask_noFaults (hturn : turn.faults = noFaults) (s : ClickUp)
    (domain : List Char) : findExistingTask turn cfg.toListConfig s domain =
      findExistingTask { now := 0 } cfg.toListConfig s domain := by
  unfold findExistingTask
  rw [hturn]

theorem findExisting_of_searchesName (hturn : turn.faults = noFaults)
    (cache : Option TaskNameCache) (h : searchesName E cfg w company = true) :
    w.tables.integration company.id = none ∧
      findExisting E cfg turn cache w company =
        searchName E cfg turn cache w.clickup company.name := by
  unfold searchesName at h
  split at h
  · next hi hnone hname =>
    refine ⟨hi, ?_⟩
    unfold findExisting findExistingTaskByName
    rw [findExistingTask_noFaults hturn, hnone, hname]
  · next i hi hnone hname =>
    refine ⟨hi, ?_⟩
    unfold findExisting findExistingTaskByName
    rw [findExistingTask_noFaults hturn, hnone, hname]
    dsimp only
    rw [hturn, attempt_noFaults, of_decide_eq_true h]
  · cases h

/-- If the name is not searched for, the cache does not matter. -/
theorem findExisting_of_not_searchesName (hturn : turn.faults = noFaults)
    (hi : w.tables.integration company.id = none) (h : searchesName E cfg w company = false) :
    findExisting E cfg turn (some cache) w company = findExisting E cfg turn none w company := by
  unfold searchesName at h
  unfold findExisting
  rw [findExistingTask_noFaults hturn]
  rw [hi] at h
  split
  · rfl
  · rfl
  · next hnone =>
    rw [hnone] at h
    unfold findExistingTaskByName
    rw [hturn]
    cases hname : namesake E w.tables company with
    | none => simp [hname] at h
    | some i =>
      rw [hname] at h
      dsimp only
      rw [attempt_noFaults]
      split
      · rfl
      · next hgone => simp [hgone] at h
      · rfl

/-- A turn of the batch is a push of the company, if the cache agrees. -/
theorem syncTurn_eq_pushCaught (hturn : turn.faults = noFaults)
    (h : CacheAgrees E cfg cache w k) :
    syncTurn E cfg turn cache w k = pushCaught E cfg turn w k := by
  rw [syncTurn_eq, pushCaught_eq]
  unfold takeTurn
  cases hc : w.tables.company k with
  | none => rfl
  | some company =>
    dsimp only
    unfold pushLoaded
    cases hi : w.tables.integration company.id with
    | some i => rfl
    | none =>
      have hfind : findExisting E cfg turn (some cache) w company =
          findExisting E cfg turn none w company := by
        cases hs : searchesName E cfg w company with
        | false => exact findExisting_of_not_searchesName hturn hi hs
        | true =>
          have hagree := h company hc hs
          rw [(findExisting_of_searchesName hturn (some cache) hs).2,
            (findExisting_of_searchesName hturn none hs).2]
          unfold searchName
          dsimp only
          rw [hturn, attempt_noFaults, hagree]
      dsimp only
      rw [hfind]

/-! ## A turn that does not agree -/

theorem externalId_takeTurn {taskId : String} {cache : Option TaskNameCache} {j : ℕ}
    (h : externalId w.tables.toLeadTables k = some taskId) :
    externalId (takeTurn E cfg turn cache w j).tables.toLeadTables k = some taskId :=
  takeTurn_keeps (P := fun w => externalId w.tables.toLeadTables k = some taskId) h
    fun _ _ _ hp => hp.keeps_externalId h

/-- The task that is found, or else a new one. -/
def foundOrNew (E : Env) (s : ClickUp) : Option ClickUpTask → String
  | some task => task.id
  | none => E.server.newId s.usedIds

/-- The link that a company has after a turn in which its name has been searched for. -/
theorem externalId_of_search (cache : Option TaskNameCache) (hturn : turn.faults = noFaults)
    (hc : w.tables.company k = some company) (hs : searchesName E cfg w company = true)
    {found : Option ClickUpTask}
    (hfound : searchName E cfg turn cache w.clickup company.name = .ok found) :
    externalId (takeTurn E cfg turn cache w k).tables.toLeadTables k =
      some (foundOrNew E w.clickup found) := by
  obtain ⟨hi, hfind⟩ := findExisting_of_searchesName hturn cache hs
  have hid : company.id = k := Table.key_of_get hc
  rw [hfound] at hfind
  -- the integration that is added is the company's first
  have hadd {i : CRMIntegration} (hcompany : i.companyId = company.id) :
      externalId (w.tables.addIntegration i) k = some i.externalId := by
    rw [externalId_addIntegration i (hcompany ▸ hi), if_pos]
    rw [hcompany, hid]
  unfold takeTurn pushLoaded
  rw [hc]
  dsimp only
  rw [hi, hfind]
  cases found with
  | some task => exact hadd rfl
  | none =>
    have hcall : turn.faults .createTask = none := by
      rw [hturn]
      rfl
    obtain ⟨s, task, hcreate⟩ :=
      createCompanyTask_of_none E cfg.toListConfig company w.clickup hcall
    dsimp only
    unfold createTask
    rw [hcreate]
    show externalId (pushContacts E cfg turn task.id company.id _).tables.toLeadTables k = _
    rw [leads_pushContacts, leads_postSignals]
    obtain ⟨t, rfl, hnew, -⟩ := ClickUp.createTask_spec (createCompanyTask_ok hcreate)
    unfold foundOrNew
    rw [← hnew]
    exact hadd rfl

/-- If the cache has something else than the search finds, the company gets another task in the
batch. The cache comes from a state `s₀` of ClickUp before. -/
theorem links_ne_of_not_cacheAgrees {s₀ : ClickUp} (hturn : turn.faults = noFaults)
    (hgrows : ClickUp.Grows s₀ w.clickup)
    (h : ¬ CacheAgrees E cfg (s₀.buildTaskNameCache E.unicode cfg.listId) w k) :
    ∃ a b, externalId (syncTurn E cfg turn (s₀.buildTaskNameCache E.unicode cfg.listId) w
        k).tables.toLeadTables k = some a ∧
      externalId (pushCaught E cfg turn w k).tables.toLeadTables k = some b ∧ a ≠ b := by
  unfold CacheAgrees at h
  push Not at h
  obtain ⟨company, hc, hs, hne⟩ := h
  have hcached : searchName E cfg turn (some (s₀.buildTaskNameCache E.unicode cfg.listId))
      w.clickup company.name = .ok (((s₀.buildTaskNameCache E.unicode cfg.listId).lookup
        (E.unicode.lower company.name)).map (·.parse)) := rfl
  have hlive : searchName E cfg turn none w.clickup company.name =
      .ok (w.clickup.findTaskByName E.unicode cfg.listId company.name) := by
    unfold searchName
    rw [hturn, attempt_noFaults]
  rw [syncTurn_eq, pushCaught_eq]
  refine ⟨_, _, externalId_of_search _ hturn hc hs hcached,
    externalId_of_search _ hturn hc hs hlive, ?_⟩
  have hfresh {t : StoredTask} (ht : t ∈ w.clickup.tasks) :
      t.id ≠ E.server.newId w.clickup.usedIds := by
    intro hid
    apply E.server.newId_fresh w.clickup.usedIds
    rw [← hid]
    exact List.mem_append_left _ (List.mem_map_of_mem ht)
  -- what is in the cache is still there, the same to the services
  have hstill {t : StoredTask} (ht : (s₀.buildTaskNameCache E.unicode cfg.listId).lookup
      (E.unicode.lower company.name) = some t) : ∃ t' ∈ w.clickup.tasks, t'.parse = t.parse := by
    rw [ClickUp.lookup_buildTaskNameCache] at ht
    have hmem := (List.mem_filter.mp (List.mem_of_find?_eq_some ht)).1
    obtain ⟨t', ht', hparse, -⟩ := hgrows.tasks t hmem
    exact ⟨t', ht', hparse⟩
  cases hlookup : (s₀.buildTaskNameCache E.unicode cfg.listId).lookup
      (E.unicode.lower company.name) with
  | none =>
    cases hfound : w.clickup.findTaskByName E.unicode cfg.listId company.name with
    | none =>
      rw [hlookup, hfound] at hne
      exact absurd rfl hne
    | some task =>
      obtain ⟨t, ht, rfl⟩ := ClickUp.findTaskByName_spec hfound
      exact (hfresh ht).symm
  | some t =>
    obtain ⟨t', ht', hparse⟩ := hstill hlookup
    have hid : t'.id = t.id := ClickUp.id_of_parse hparse
    cases hfound : w.clickup.findTaskByName E.unicode cfg.listId company.name with
    | none =>
      show t.id ≠ E.server.newId w.clickup.usedIds
      rw [← hid]
      exact hfresh ht'
    | some task =>
      obtain ⟨u, hu, rfl⟩ := ClickUp.findTaskByName_spec hfound
      rw [hlookup, hfound] at hne
      intro heq
      have hsame : t' = u := ClickUp.eq_of_id ht' hu (hid.trans heq)
      rw [hsame] at hparse
      exact hne (congrArg some hparse.symm)

/-! ## The whole batch -/

/-- Later turns leave a link as it is. -/
theorem externalId_foldl {f : World → ℕ → World} {taskId : String}
    (hf : ∀ w j, externalId w.tables.toLeadTables k = some taskId →
      externalId (f w j).tables.toLeadTables k = some taskId)
    (h : externalId w.tables.toLeadTables k = some taskId) (companyIds : List ℕ) :
    externalId (companyIds.foldl f w).tables.toLeadTables k = some taskId := by
  induction companyIds generalizing w with
  | nil => exact h
  | cons j companyIds ih => exact ih (hf w j h)

theorem foldl_sameOutcome_iff {s₀ : ClickUp} (hturn : turn.faults = noFaults)
    (hgrows : ClickUp.Grows s₀ w.clickup) (companyIds : List ℕ) :
    SameOutcome
        (companyIds.foldl (syncTurn E cfg turn (s₀.buildTaskNameCache E.unicode cfg.listId)) w)
        (companyIds.foldl (pushCaught E cfg turn) w) ↔
      Run.AllSteps (fun w k => some (pushCaught E cfg turn w k))
        (CacheAgrees E cfg (s₀.buildTaskNameCache E.unicode cfg.listId)) w companyIds := by
  induction companyIds generalizing w with
  | nil => exact ⟨fun _ => trivial, fun _ => ⟨fun _ => rfl, fun _ => rfl, fun _ => Iff.rfl⟩⟩
  | cons k companyIds ih =>
    rw [Run.allSteps_total_cons, List.foldl_cons, List.foldl_cons]
    by_cases hagree : CacheAgrees E cfg (s₀.buildTaskNameCache E.unicode cfg.listId) w k
    · have hnext : ClickUp.Grows s₀ (pushCaught E cfg turn w k).clickup := by
        rw [pushCaught_eq]
        exact hgrows.trans grows_takeTurn
      rw [syncTurn_eq_pushCaught hturn hagree, ih hnext]
      exact ⟨fun h => ⟨hagree, h⟩, fun h => h.2⟩
    · -- the links of this company stay different
      obtain ⟨a, b, ha, hb, hne⟩ := links_ne_of_not_cacheAgrees hturn hgrows hagree
      constructor
      · intro h
        have hsync := externalId_foldl (f := syncTurn E cfg turn
          (s₀.buildTaskNameCache E.unicode cfg.listId)) (fun w j hw => by
            rw [syncTurn_eq]
            exact externalId_takeTurn hw) ha companyIds
        have hpush := externalId_foldl (f := pushCaught E cfg turn) (fun w j hw => by
            rw [pushCaught_eq]
            exact externalId_takeTurn hw) hb companyIds
        have hsame := h.external k
        rw [hsync, hpush] at hsame
        exact absurd (Option.some.inj hsame) hne
      · exact fun h => absurd h.1 hagree

/-- The batch ends with the same links and created tasks as single pushes in the same order, if
and only if at each of these pushes the cache agrees. -/
theorem syncQualifiedCompanies_iff (E : Env) (cfg : Config) (order : RowOrder Company)
    (now : Time) (w : World) :
    SameOutcome (syncQualifiedCompanies E cfg order now w)
        (pushEach E cfg now w (qualifiedIds cfg.toListConfig order w.tables)) ↔
      Run.AllSteps (fun w k => some (pushCaught E cfg { now := now } w k))
        (CacheAgrees E cfg (w.clickup.buildTaskNameCache E.unicode cfg.listId)) w
        (qualifiedIds cfg.toListConfig order w.tables) :=
  foldl_sameOutcome_iff rfl (.refl w.clickup) _

/-- Two names that differ in their case: the batch does not see the task that it has created for
the first company when it comes to the second. -/
theorem not_sameOutcome_case :
    ¬ SameOutcome
      (syncQualifiedCompanies Env.plain Config.plain (.asStored _) 0
        (State.fresh [qualifiedCompany 1 "Foo", qualifiedCompany 2 "foo"]).world)
      (pushEach Env.plain Config.plain 0
        (State.fresh [qualifiedCompany 1 "Foo", qualifiedCompany 2 "foo"]).world
        (qualifiedIds Config.plain.toListConfig (.asStored _)
          (State.fresh [qualifiedCompany 1 "Foo", qualifiedCompany 2 "foo"]).world.tables)) := by
  intro h
  have hlink := h.external 2
  revert hlink
  decide +kernel

/-! ## The batch in a run -/

theorem exec_turns (E : Env) (cfg : Config) (legacy : ListConfig) (now : Time)
    (cache : TaskNameCache) (companyIds : List ℕ) (s : State)
    (hs : s.batch = some (.provider cache companyIds)) :
    Run.exec (step E cfg legacy) s (companyIds.map fun _ => .nextTurn { now := now }) =
      some { s with world := companyIds.foldl (syncTurn E cfg { now := now } cache) s.world,
                    batch := some (.provider cache []) } := by
  induction companyIds generalizing s with
  | nil =>
    obtain ⟨world, batch, nextId⟩ := s
    obtain rfl : batch = some (.provider cache []) := hs
    rfl
  | cons k companyIds ih =>
    have hstep : step E cfg legacy s (.nextTurn { now := now }) =
        some { s with world := syncTurn E cfg { now := now } cache s.world k,
                      batch := some (.provider cache companyIds) } := by
      simp only [step, batchTurn, hs]
    rw [List.map_cons, Run.exec_cons, hstep, Option.bind_some, ih _ rfl, List.foldl_cons]

/-- The steps of a run that start a batch and take its turns one by one. -/
theorem exec_syncQualifiedCompanies (E : Env) (cfg : Config) (legacy : ListConfig)
    (order : RowOrder Company) (now : Time) (s : State) (hs : s.batch = none) :
    Run.exec (step E cfg legacy) s (.startSync order none ::
        (qualifiedIds cfg.toListConfig order s.world.tables).map
          fun _ => .nextTurn { now := now }) =
      some { s with
        world := syncQualifiedCompanies E cfg order now s.world
        batch := some (.provider
          (s.world.clickup.buildTaskNameCache E.unicode cfg.listId) []) } := by
  have hstart : step E cfg legacy s (.startSync order none) =
      some { s with batch := some (.provider
        (s.world.clickup.buildTaskNameCache E.unicode cfg.listId)
        (qualifiedIds cfg.toListConfig order s.world.tables)) } := by
    simp only [step, operation, hs]
  rw [Run.exec_cons, hstart, Option.bind_some, exec_turns E cfg legacy now _ _ _ rfl]
  rfl

end Crm
end LeadPulse
