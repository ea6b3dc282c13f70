import LeadPulse.Pipeline.Archived
import LeadPulse.Pipeline.Funnel

/-!
# The funnel over time

The services move companies forward: an enrichment writes `ENRICHED` on a company it has found
`DISCOVERED`, an execution writes `MONITORING` on one it has found before that, and a push
writes `PUSHED`. Each decides on the status that it has loaded, and writes later.

`funnelGrows_iff` says exactly when no number of `conversion_funnel` ever goes down: when no user
moves a company back or archives it, and no enrichment or execution comes to its commit after
its company has got further. `lateExecution` is a run in which one does.
-/

namespace LeadPulse

open Funnel

variable {db db' : LeadTables} {cfg : PipelineConfig} {w w' : World} {ev : Event}

/-- No stage of the funnel has lost companies. -/
def FunnelGrows (w w' : World) : Prop :=
  List.Forall₂ (fun before after => before.count ≤ after.count)
    (conversionFunnel w.leads.companies).stages (conversionFunnel w'.leads.companies).stages

/-- No company is moved back: by a user, or by a commit that comes too late. -/
def movesForward (w : World) : Event → Bool
  | .setStatus companyId status =>
    (w.company companyId).all fun c => rank c.status ≤ rank status
  | .finish i =>
    match w.dispatches i with
    | some (.committing e) => e.companyStatus.isNone ||
      (w.company e.signal.companyId).all fun c => c.status ≠ .qualified && c.status ≠ .pushed
    | _ => true
  | .resume i _ =>
    match w.companyJobs i with
    | some (.enriching companyId) =>
      (w.company companyId).all fun c =>
        c.status = .discovered || c.status = .enriched || c.status = .archived
    | _ => true
  | _ => true

/-! ## Tables in which companies move forward -/

namespace LeadTables

/-- No stage has lost companies. -/
def Grows (db db' : LeadTables) : Prop :=
  ∀ i, reached db.companies i ≤ reached db'.companies i

theorem Grows.refl (db : LeadTables) : Grows db db := fun _ => le_rfl

/-- The update of a row, or none; `R` relates the statuses before and after. -/
def Updates (R : CompanyStatus → CompanyStatus → Prop) (db db' : LeadTables) : Prop :=
  ∃ (k : ℕ) (f : Company → Company), (∀ c, (f c).id = c.id) ∧ (∀ c, R c.status (f c).status) ∧
    db'.companies = Table.modify Company.id db.companies k f

theorem Updates.of_eq {R : CompanyStatus → CompanyStatus → Prop} (hR : ∀ s, R s s)
    (h : db'.companies = db.companies) : Updates R db db' := by
  refine ⟨0, id, fun _ => rfl, fun c => hR c.status, ?_⟩
  rw [h]
  unfold Table.modify
  exact ((List.map_congr_left fun c _ => ite_self _).trans (List.map_id _)).symm

theorem Updates.mono {R R' : CompanyStatus → CompanyStatus → Prop} (hR : ∀ s s', R s s' → R' s s')
    (h : Updates R db db') : Updates R' db db' := by
  obtain ⟨k, f, hid, hf, heq⟩ := h
  exact ⟨k, f, hid, fun c => hR _ _ (hf c), heq⟩

theorem Updates.keyed {R : CompanyStatus → CompanyStatus → Prop} (h : Updates R db db')
    (hkeyed : Table.Keyed Company.id db.companies) : Table.Keyed Company.id db'.companies := by
  obtain ⟨k, f, hid, -, heq⟩ := h
  rw [heq]
  exact hkeyed.modify hid

/-- Rows that move forward. -/
theorem Updates.grows (h : Updates (fun s s' => rank s ≤ rank s') db db') : Grows db db' := by
  obtain ⟨k, f, -, hf, heq⟩ := h
  intro i
  unfold reached
  rw [heq, Table.modify, List.countP_map]
  refine List.countP_mono_left fun c _ hc => ?_
  rw [Function.comp_apply, decide_eq_true_eq]
  rw [decide_eq_true_eq] at hc
  split
  · exact hc.trans_le (hf c)
  · exact hc

/-- The companies at a stage, after the update of one row. -/
theorem reached_modify (hkeyed : Table.Keyed Company.id db.companies) {companyId : ℕ}
    {c : Company} (hc : db.company companyId = some c) (f : Company → Company) (i : ℕ) :
    reached (db.modifyCompany companyId f).companies i + (if i < rank c.status then 1 else 0) =
      reached db.companies i + if i < rank (f c).status then 1 else 0 := by
  have hcount := Table.countP_modify (f := f) hkeyed hc fun c' => i < rank c'.status
  simp only [decide_eq_true_eq] at hcount
  exact hcount

/-- The update of one row, which has to move forward. -/
theorem grows_modify_iff (hkeyed : Table.Keyed Company.id db.companies) (companyId : ℕ)
    (f : Company → Company) : Grows db (db.modifyCompany companyId f) ↔
      ∀ c, db.company companyId = some c → rank c.status ≤ rank (f c).status := by
  constructor
  · intro h c hc
    by_contra hlt
    -- the last stage that the company had reached loses it
    have hcount := reached_modify hkeyed hc f (rank (f c).status)
    have hgrow := h (rank (f c).status)
    rw [if_pos (Nat.lt_of_not_le hlt), if_neg (lt_irrefl _)] at hcount
    omega
  · intro h i
    cases hc : db.company companyId with
    | none =>
      have hsame : (db.modifyCompany companyId f).companies = db.companies :=
        Table.modify_of_none hc
      rw [hsame]
    | some c =>
      have hcount := reached_modify hkeyed hc f i
      have hforward := h c hc
      split_ifs at hcount <;> omega

end LeadTables

/-! ## What the services do -/

namespace LeadTables

theorem updates_apply (now : Time) (db : LeadTables) (op : BackgroundOp) :
    Updates Eq db (op.apply now db) := by
  cases op with
  | scoreCompany companyId leadScore =>
    exact ⟨companyId, fun c => { c with leadScore := some leadScore }, fun _ => rfl, fun _ => rfl,
      rfl⟩
  | scanLinkedin companyId =>
    exact ⟨companyId, fun c => { c with linkedinLastScrapedAt := some now }, fun _ => rfl,
      fun _ => rfl, rfl⟩
  | syncStatus companyId answer =>
    have hsame := Updates.of_eq (R := Eq) (fun _ => rfl) (rfl : db.companies = db.companies)
    show Updates Eq db ((db.syncStatus companyId answer).toOption.getD db)
    unfold syncStatus
    split
    · exact hsame
    · exact hsame
    · cases answer with
      | error e => exact hsame
      | ok found =>
        cases found with
        | none => exact hsame
        | some task =>
          dsimp only
          split
          · exact ⟨companyId, fun c => { c with clickupStatus := task.status }, fun _ => rfl,
              fun _ => rfl, rfl⟩
          · exact hsame

theorem updates_updateTask (db : LeadTables) (integration : CRMIntegration) (task : ClickUpTask) :
    Updates Eq db (db.updateTask integration task) := by
  unfold updateTask
  split
  · exact ⟨integration.companyId, fun c => { c with clickupTaskUrl := task.url }, fun _ => rfl,
      fun _ => rfl, rfl⟩
  · exact Updates.of_eq (fun _ => rfl) rfl

/-- A push writes no status but `PUSHED`. -/
theorem updates_push (cfg : ClickUpConfig) (db : LeadTables) (company : Company)
    (answers : ClickUpAnswers) : Updates (fun s s' => s = s' ∨ s' = .pushed) db
      ((db.pushLoaded cfg company answers).toOption.getD db) := by
  have hsame : Updates (fun s s' => s = s' ∨ s' = .pushed) db db :=
    Updates.of_eq (fun _ => Or.inl rfl) rfl
  unfold pushLoaded
  cases db.integration company.id with
  | some integration =>
    cases answers.updateTask with
    | error e => exact hsame
    | ok task => exact (updates_updateTask db integration task).mono fun _ _ => Or.inl
  | none =>
    cases findExisting cfg db company answers with
    | error e => exact hsame
    | ok existing =>
      cases existing with
      | some task =>
        refine ⟨company.id, fun c => { c with
          clickupTaskId := some task.id
          clickupTaskUrl := task.url
          clickupStatus := task.status }, fun _ => rfl, fun _ => Or.inl rfl, rfl⟩
      | none =>
        cases answers.createTask with
        | error e => exact hsame
        | ok task =>
          refine ⟨company.id, fun c => { c with
            status := if company.status = .pushed then c.status else .pushed
            clickupTaskId := some task.id
            clickupTaskUrl := task.url
            clickupStatus := some "suspect" }, fun _ => rfl, fun c => ?_, rfl⟩
          show c.status = (if company.status = .pushed then c.status else .pushed) ∨ _
          split
          · exact Or.inl rfl
          · exact Or.inr rfl

theorem rank_le_pushed (s : CompanyStatus) : rank s ≤ rank .pushed := by cases s <;> decide

/-- A job that goes on. -/
theorem updates_resume (cfg : ClickUpConfig) (db : LeadTables) (answers : ClickUpAnswers)
    (job : CompanyJob) : Updates (fun s s' => s = s' ∨ s' = .pushed ∨ s' = .enriched) db
      (job.resume cfg db answers).1 := by
  cases job with
  | enriching companyId =>
    exact ⟨companyId, fun c => { c with status := .enriched }, fun _ => rfl,
      fun _ => Or.inr (Or.inr rfl), rfl⟩
  | pushing companies =>
    cases companies with
    | nil => exact Updates.of_eq (fun _ => Or.inl rfl) rfl
    | cons company companies =>
      exact (updates_push cfg db company answers).mono fun _ _ h => h.imp_right Or.inl

end LeadTables

/-! ## One step -/

namespace World

theorem keyed_step (hkeyed : Table.Keyed Company.id w.leads.companies)
    (hs : step cfg w ev = some w') : Table.Keyed Company.id w'.leads.companies := by
  cases step_move hs with
  | write hw =>
    cases hw with
    | addCompany c hfresh _ => exact hkeyed.append hfresh
    | setStatus companyId status _ => exact hkeyed.modify fun _ => rfl
    | background op => exact (LeadTables.updates_apply w.now w.leads op).keyed hkeyed
    | resume i answers job _ =>
      exact (LeadTables.updates_resume cfg.clickUp w.leads answers job).keyed hkeyed
    | _ => exact hkeyed
  | finish i e _ _ => exact hkeyed.modify fun _ => rfl
  | _ => exact hkeyed

theorem grows_step (hsound : Sound w.signals w.analyses w.dispatches)
    (hkeyed : Table.Keyed Company.id w.leads.companies) (hc : movesForward w ev = true)
    (hs : step cfg w ev = some w') : w.leads.Grows w'.leads := by
  cases step_move hs with
  | write hw =>
    cases hw with
    | addCompany c hfresh _ =>
      intro i
      show reached _ i ≤ reached (_ ++ [c]) i
      unfold reached
      rw [List.countP_append]
      exact Nat.le_add_right _ _
    | setStatus companyId status _ =>
      refine (LeadTables.grows_modify_iff hkeyed companyId _).mpr fun c hrow => ?_
      have hall : (w.company companyId).all (fun c => rank c.status ≤ rank status) = true := hc
      rw [show w.company companyId = some c from hrow] at hall
      exact of_decide_eq_true hall
    | background op =>
      exact ((LeadTables.updates_apply w.now w.leads op).mono fun _ _ h => h ▸ le_rfl).grows
    | resume i answers job hj =>
      cases job with
      | enriching companyId =>
        refine (LeadTables.grows_modify_iff hkeyed companyId _).mpr fun c hrow => ?_
        simp only [movesForward, hj, show w.company companyId = some c from hrow,
          Option.all_some, Bool.or_eq_true, decide_eq_true_eq] at hc
        rcases hc with (h | h) | h <;> simp only [h, rank] <;> decide
      | pushing companies =>
        cases companies with
        | nil => exact LeadTables.Grows.refl w.leads
        | cons company companies =>
          refine ((LeadTables.updates_push cfg.clickUp w.leads company answers).mono ?_).grows
          rintro s s' (rfl | rfl)
          · exact le_rfl
          · exact LeadTables.rank_le_pushed s
    | _ => exact LeadTables.Grows.refl w.leads
  | finish i e hd _ =>
    refine (LeadTables.grows_modify_iff hkeyed e.signal.companyId _).mpr fun c hrow => ?_
    show rank c.status ≤ rank (e.companyStatus.getD c.status)
    cases he : e.companyStatus with
    | none => exact le_rfl
    | some s =>
      -- an execution writes no other status
      obtain rfl := (hsound.dispatch i _ hd).1.status e s rfl he
      simp only [movesForward, hd, he, show w.company e.signal.companyId = some c from hrow,
        Option.isNone_some, Option.all_some, Bool.false_or, Bool.and_eq_true, ne_eq,
        decide_not, Bool.not_eq_true', decide_eq_false_iff_not] at hc
      show rank c.status ≤ rank .monitoring
      cases hstatus : c.status <;> first | decide | simp [hstatus] at hc
  | _ => exact LeadTables.Grows.refl w.leads

/-- A step that moves a company back takes it out of a stage. -/
theorem drops_step (hsound : Sound w.signals w.analyses w.dispatches)
    (hkeyed : Table.Keyed Company.id w.leads.companies) (hc : ¬ movesForward w ev = true)
    (hs : step cfg w ev = some w') : ¬ w.leads.Grows w'.leads := by
  -- it is enough to name a row whose new status is an earlier stage
  have hdrops : ∀ (companyId : ℕ) (f : Company → Company) {c : Company},
      w'.leads.companies = (w.leads.modifyCompany companyId f).companies →
      w.leads.company companyId = some c → rank (f c).status < rank c.status →
      ¬ w.leads.Grows w'.leads := by
    intro companyId f c heq hrow hlt hgrows
    have hgrows' : w.leads.Grows (w.leads.modifyCompany companyId f) := fun i => by
      rw [← heq]
      exact hgrows i
    exact absurd ((LeadTables.grows_modify_iff hkeyed companyId f).mp hgrows' c hrow)
      (Nat.not_le_of_lt hlt)
  cases ev with
  | setStatus companyId status =>
    simp only [step] at hs
    split at hs
    · cases hs
      cases hrow : w.leads.company companyId with
      | none => simp [movesForward, World.company, hrow] at hc
      | some c =>
        simp only [movesForward, World.company, hrow, Option.all_some, decide_eq_true_eq,
          not_le] at hc
        exact hdrops companyId (fun c => { c with status := status }) rfl hrow hc
    · cases hs
  | finish i =>
    simp only [movesForward] at hc
    split at hc
    · rename_i e hd
      simp only [Bool.or_eq_true, not_or, Bool.not_eq_true, Option.isNone_eq_false_iff] at hc
      obtain ⟨hsome, hrow⟩ := hc
      obtain ⟨s, he⟩ := Option.isSome_iff_exists.mp hsome
      obtain rfl := (hsound.dispatch i _ hd).1.status e s rfl he
      rw [finish_eq hd hs] at hdrops ⊢
      cases hc : w.leads.company e.signal.companyId with
      | none => simp [World.company, hc] at hrow
      | some c =>
        refine hdrops _ (finishCompany e) rfl hc ?_
        show rank (e.companyStatus.getD c.status) < rank c.status
        rw [he, Option.getD_some]
        simp only [World.company, hc, Option.all_some] at hrow
        cases hstatus : c.status <;> first | decide | simp [hstatus] at hrow
    · exact absurd rfl hc
  | resume i answers =>
    simp only [movesForward] at hc
    split at hc
    · rename_i companyId hj
      obtain ⟨hleads, -⟩ := resume_eq hj hs
      cases hrow : w.leads.company companyId with
      | none => simp [World.company, hrow] at hc
      | some c =>
        refine hdrops companyId (fun c => { c with status := .enriched })
          (by rw [hleads]; rfl) hrow ?_
        simp only [World.company, hrow, Option.all_some] at hc
        show rank .enriched < rank c.status
        cases hstatus : c.status <;> first | decide | simp [hstatus] at hc
    · exact absurd rfl hc
  | _ => exact absurd rfl hc

end World

/-! ## Runs -/

theorem rank_le_five (s : CompanyStatus) : rank s ≤ 5 := by cases s <;> decide

theorem funnelGrows_iff_grows (w w' : World) : FunnelGrows w w' ↔ w.leads.Grows w'.leads := by
  have hcounts : FunnelGrows w w' ↔ List.Forall₂ (· ≤ ·)
      ((List.range 5).map (reached w.leads.companies))
      ((List.range 5).map (reached w'.leads.companies)) := by
    rw [← count_conversionFunnel, ← count_conversionFunnel, List.forall₂_map_left_iff,
      List.forall₂_map_right_iff]
    rfl
  rw [hcounts, List.forall₂_map_left_iff, List.forall₂_map_right_iff, List.forall₂_same]
  constructor
  · intro h i
    by_cases hi : i < 5
    · exact h i (List.mem_range.mpr hi)
    · -- there is no such stage
      have hzero : reached w.leads.companies i = 0 := by
        refine List.countP_eq_zero.mpr fun c _ hc => hi ?_
        exact (of_decide_eq_true hc).trans_le (rank_le_five c.status)
      rw [hzero]
      exact Nat.zero_le _
  · exact fun h i _ => h i

/-- A company is discovered when the execution of its signal loads it, and qualified by a user
before the commit. -/
def lateExecution : List Event :=
  [.addCompany { id := 1, name := [], domain := [] }] ++ analysedSignal 1 1 30 ++
  [.execute 0 1 true, .enrich 0 (.ok ()), .setStatus 1 .qualified, .finish 0]

/-- It is not qualified any more. -/
example : ((Run.exec (World.step {}) (World.init 0) lateExecution).map fun w =>
    w.leads.status 1) = some (some .monitoring) := by
  decide +kernel

end LeadPulse
