import LeadPulse.Icp.Transactions
import LeadPulse.Scoring.IcpScore

/-!
# What the table of profiles holds

The validators see a request, never a row. An update writes whole columns, though, and what it
leaves out or has not changed comes from a row. So whatever requests run at the same time, the
columns of every row pass the checks (`columnsChecked_always`), and no profile asks for what no
company can be.
-/

namespace LeadPulse

/-! ## The validators -/

section

variable {α : Type} {field msg : String}

theorem checkNonneg_eq_ok_iff [LE α] [Zero α] [DecidableLE α] {value : Option α} :
    checkNonneg field value = .ok () ↔ ∀ n ∈ value, 0 ≤ n := by
  unfold checkNonneg
  have hall : (∀ n ∈ value, 0 ≤ n) ↔ value.all (fun n => decide (0 ≤ n)) = true := by
    rw [Option.all_eq_true]
    simp
  rw [hall]
  split <;> simp [*]

theorem checkRange_eq_ok_iff [LT α] [DecidableLT α] {lower upper : Option α} :
    checkRange lower upper msg = .ok () ↔ ∀ lo ∈ lower, ∀ hi ∈ upper, lo < hi := by
  unfold checkRange
  cases lower with
  | none => simp
  | some lo =>
    cases upper with
    | none => simp
    | some hi =>
      simp only [Option.mem_some_iff, forall_eq']
      split <;> simp [*]

theorem checkName_eq_ok_iff {name : String} :
    checkName name = .ok () ↔ 1 ≤ name.length ∧ name.length ≤ 255 := by
  unfold checkName
  split
  · simp
    omega
  · split
    · simp
      omega
    · simp
      omega

end

theorem SizeFilter.validate_eq_ok_iff {s : SizeFilter} : s.validate = .ok () ↔
    ((∀ n ∈ s.minEmployees, 0 ≤ n) ∧ (∀ n ∈ s.maxEmployees, 0 ≤ n) ∧
      (∀ n ∈ s.minRevenue, 0 ≤ n) ∧ ∀ n ∈ s.maxRevenue, 0 ≤ n) ∧
    (∀ lo ∈ s.minEmployees, ∀ hi ∈ s.maxEmployees, lo < hi) ∧
      ∀ lo ∈ s.minRevenue, ∀ hi ∈ s.maxRevenue, lo < hi := by
  unfold SizeFilter.validate
  simp only [Raises.check_eq_ok_iff, checkNonneg_eq_ok_iff, checkRange_eq_ok_iff, and_assoc]

/-! ## The columns of a row -/

/-- The checks of the fields, for the columns of a row. -/
def ICPProfile.checkColumns (row : ICPProfile) : Except ValidationError Unit := do
  checkName row.name
  checkOptional SizeFilter.validate row.sizeFilter

namespace ICPProfile

variable {row loaded modified : ICPProfile}

theorem checkColumns_eq_ok_iff : row.checkColumns = .ok () ↔
    checkName row.name = .ok () ∧ checkOptional SizeFilter.validate row.sizeFilter = .ok () :=
  Raises.check_eq_ok_iff

/-- The columns of a flushed row come from the two rows. -/
theorem checkColumns_flush (hrow : row.checkColumns = .ok ())
    (hmodified : modified.checkColumns = .ok ()) :
    (loaded.flush modified row).checkColumns = .ok () := by
  rw [checkColumns_eq_ok_iff] at *
  have hpick {β : Type} [DecidableEq β] (field : ICPProfile → β) (P : β → Prop)
      (h : P (field row)) (h' : P (field modified)) : P (flush.pick loaded modified row field) := by
    unfold flush.pick
    split
    · exact h
    · exact h'
  exact ⟨hpick (·.name) (fun name => checkName name = .ok ()) hrow.1 hmodified.1,
    hpick (·.sizeFilter) (fun size => checkOptional SizeFilter.validate size = .ok ()) hrow.2
      hmodified.2⟩

theorem checkColumns_switch (hrow : row.checkColumns = .ok ()) (target : ℕ) (cleared : List ℕ) :
    (row.switch target cleared).checkColumns = .ok () := by
  unfold switch
  split
  · exact hrow
  · split <;> exact hrow

theorem checkColumns_patched {data : ICPProfileUpdate} (hdata : data.validate = .ok ())
    (hrow : row.checkColumns = .ok ()) : (IcpTable.patched data row).checkColumns = .ok () := by
  obtain ⟨hname, hdata⟩ := Raises.check_eq_ok_iff.mp hdata
  obtain ⟨hsize, -⟩ := Raises.check_eq_ok_iff.mp hdata
  rw [checkColumns_eq_ok_iff] at hrow
  unfold IcpTable.patched
  split
  · exact checkColumns_eq_ok_iff.mpr hrow
  · rename_i name hset
    refine checkColumns_eq_ok_iff.mpr ⟨?_, ?_⟩
    · cases h : data.name with
      | unset =>
        rw [h] at hset
        cases hset
        exact hrow.1
      | set value =>
        rw [h] at hset hname
        obtain rfl : value = some name := hset
        exact hname
    · show checkOptional SizeFilter.validate (data.sizeFilter.apply row.sizeFilter) = .ok ()
      cases h : data.sizeFilter with
      | unset => exact hrow.2
      | set value =>
        rw [h] at hsize
        exact hsize

end ICPProfile

/-! ## Steps -/

namespace IcpWorld

variable {w w' : IcpWorld} {ev : IcpEvent}

/-- A step is a request that is accepted, or a transaction that moves. -/
theorem step_request (h : w.step ev = some w') :
    w' = w ∨
    (∃ data, ev = .create data ∧ data.validate = .ok () ∧
      w' = { w with table := w.table.createProfile data }) ∨
    (∃ i action txn, ev = .begin i action ∧ action.valid = true ∧
      action.accept (w.table.get action.profileId) = .ok txn ∧ w' = w.goOn i txn) ∨
    (ev.slot ≠ none ∧ IcpMove w ev w') := by
  have hm := step_move h
  unfold step at h
  split at h
  · rename_i data
    split at h
    · cases h
      exact .inl rfl
    · rename_i hdata
      cases h
      exact .inr (.inl ⟨data, rfl, hdata, rfl⟩)
  · rename_i i action
    split at h
    · cases h
    · split at h
      · cases h
        exact .inl rfl
      · rename_i hvalid
        split at h
        · cases h
          exact .inl rfl
        · rename_i txn haccept
          cases h
          have hvalid : action.valid = true := by simpa using hvalid
          exact .inr (.inr (.inl ⟨i, action, txn, rfl, hvalid, haccept, rfl⟩))
  all_goals exact .inr (.inr (.inr ⟨Option.some_ne_none _, hm⟩))

end IcpWorld

/-- What is true of the profile that a request has loaded and of what it does to it. -/
def IcpTxn.Writes (P : ICPProfile → RowWrite → Prop) : IcpTxn → Prop
  | .write loaded op _ => P loaded op
  | .activate _ _ => True

theorem IcpAction.accept_writes {P : ICPProfile → RowWrite → Prop} {action : IcpAction}
    {row : ICPProfile} {txn : IcpTxn} (h : action.accept (some row) = .ok txn)
    (hupdate : ∀ profileId data, action = .update profileId data → P row (.update data))
    (hdeactivate : P row .deactivate) (hdelete : P row .delete) : txn.Writes P := by
  cases action with
  | update profileId data =>
    cases h
    exact hupdate profileId data rfl
  | activate profileId =>
    cases h
    trivial
  | deactivate profileId =>
    simp only [accept] at h
    split at h
    · cases h
      exact hdeactivate
    · cases h
  | delete profileId =>
    simp only [accept] at h
    split at h
    · cases h
    · cases h
      exact hdelete

section

variable {w w' w₁ : IcpWorld} {ev : IcpEvent}

/-- A statement that comes to a row changes nothing but locks. -/
theorem IcpWorld.eq_of_visited {i k : ℕ} (h : w₁ = w ∨ w.visit i k = some w₁) :
    w₁.txns = w.txns ∧ w₁.table = w.table := by
  rcases h with rfl | h
  · exact ⟨rfl, rfl⟩
  · obtain ⟨locks, rfl⟩ := visit_locks h
    exact ⟨rfl, rfl⟩

/-- What is true of a write stays true while its request goes on. -/
theorem IcpMove.writes {P : ICPProfile → RowWrite → Prop} (hm : IcpMove w ev w')
    (hev : ev.slot ≠ none) (h : Slots.All (fun _ txn => txn.Writes P) w.txns) :
    Slots.All (fun _ txn => txn.Writes P) w'.txns := by
  have hvisited {i k : ℕ} {w₁ : IcpWorld} (hv : w₁ = w ∨ w.visit i k = some w₁) :
      Slots.All (fun _ txn => txn.Writes P) w₁.txns := by
    rw [(IcpWorld.eq_of_visited hv).1]
    exact h
  cases hm with
  | refused => exact h
  | created => exact h
  | begun => exact absurd rfl hev
  | flushed i loaded op w₁ txn hv =>
    have hwrites : P loaded op := h i _ txn
    exact Slots.All.set (hvisited hv) hwrites
  | lockAll => exact Slots.All.set h trivial
  | lock i target k todo w₁ txn hv => exact Slots.All.set (hvisited (.inr hv)) trivial
  | clearAll => exact Slots.All.set h trivial
  | clear i target k todo cleared w₁ txn hv => exact Slots.All.set (hvisited (.inr hv)) trivial
  | set i target cleared w₁ txn hv => exact Slots.All.set (hvisited (.inr hv)) trivial
  | wrote i loaded op => cases op <;> exact Slots.All.clear h
  | activated i => exact Slots.All.clear h
  | ended i k w₁ hv => exact Slots.All.clear (hvisited hv)

/-- A transaction that moves changes the table only by its commit. -/
theorem IcpMove.table_cases (hm : IcpMove w ev w') (hev : ev.slot ≠ none) :
    w'.table = w.table ∨
    (∃ i loaded op, ev = .commit i ∧ w.txns i = some (.write loaded op true) ∧
      w' = w.commitWrite i loaded op) ∨
    ∃ i target cleared, ev = .commit i ∧ w.txns i = some (.activate target (.set cleared)) ∧
      w' = w.commitActivate i target cleared := by
  cases hm with
  | refused => exact .inl rfl
  | created => exact absurd rfl hev
  | begun => exact absurd rfl hev
  | flushed i loaded op w₁ txn hv => exact .inl (IcpWorld.eq_of_visited hv).2
  | lockAll => exact .inl rfl
  | lock i target k todo w₁ txn hv => exact .inl (IcpWorld.eq_of_visited (.inr hv)).2
  | clearAll => exact .inl rfl
  | clear i target k todo cleared w₁ txn hv =>
    exact .inl (IcpWorld.eq_of_visited (.inr hv)).2
  | set i target cleared w₁ txn hv => exact .inl (IcpWorld.eq_of_visited (.inr hv)).2
  | wrote i loaded op txn => exact .inr (.inl ⟨i, loaded, op, rfl, txn, rfl⟩)
  | activated i target cleared txn => exact .inr (.inr ⟨i, target, cleared, rfl, txn, rfl⟩)
  | ended i k w₁ hv => exact .inl (IcpWorld.eq_of_visited hv).2

end

/-! ## The invariant -/

namespace IcpWorld

variable {w w' : IcpWorld} {ev : IcpEvent}

/-- The rows pass the checks, and so do those that a request is about to save. -/
structure ColumnsChecked (w : IcpWorld) : Prop where
  rows : ∀ row ∈ w.table.profiles, row.checkColumns = .ok ()
  txns : Slots.All (fun _ txn => txn.Writes fun loaded op =>
    (op.modified loaded).checkColumns = .ok ()) w.txns

theorem columnsChecked_init : (init .init).ColumnsChecked where
  rows := fun _ hrow => nomatch hrow
  txns := Slots.All.none

/-- What a request that is accepted will write. -/
theorem ColumnsChecked.accept (h : w.ColumnsChecked) {action : IcpAction} {txn : IcpTxn}
    (hvalid : action.valid = true)
    (haccept : action.accept (w.table.get action.profileId) = .ok txn) :
    txn.Writes fun loaded op => (op.modified loaded).checkColumns = .ok () := by
  cases hget : w.table.get action.profileId with
  | none =>
    rw [hget] at haccept
    cases action <;> cases haccept
  | some row =>
    have hrow := h.rows row (Table.mem_of_get hget)
    rw [hget] at haccept
    refine IcpAction.accept_writes haccept ?_ hrow hrow
    rintro profileId data rfl
    cases hdata : data.validate with
    | ok => exact ICPProfile.checkColumns_patched hdata hrow
    | error e =>
      have hok : data.validate.isOk = true := hvalid
      rw [hdata] at hok
      cases hok

theorem ColumnsChecked.save (h : w.ColumnsChecked) {loaded modified : ICPProfile}
    (hmodified : modified.checkColumns = .ok ()) :
    ∀ row ∈ (w.table.save loaded modified).profiles, row.checkColumns = .ok () := by
  intro row hrow
  obtain ⟨row, hmem, rfl⟩ := List.mem_map.mp hrow
  split
  · exact ICPProfile.checkColumns_flush (h.rows row hmem) hmodified
  · exact h.rows row hmem

theorem ColumnsChecked.move (h : w.ColumnsChecked) (hm : IcpMove w ev w')
    (hev : ev.slot ≠ none) : w'.ColumnsChecked := by
  refine ⟨?_, hm.writes hev h.txns⟩
  rcases hm.table_cases hev with htable | ⟨i, loaded, op, rfl, hi, rfl⟩ |
    ⟨i, target, cleared, rfl, hi, rfl⟩
  · rw [htable]
    exact h.rows
  · have hwrites : (op.modified loaded).checkColumns = .ok () := h.txns i _ hi
    cases op with
    | delete => exact fun row hrow => h.rows row (List.mem_filter.mp hrow).1
    | update data => exact h.save hwrites
    | deactivate => exact h.save hwrites
  · intro row hrow
    obtain ⟨row, hmem, rfl⟩ := List.mem_map.mp hrow
    exact ICPProfile.checkColumns_switch (h.rows row hmem) target cleared

theorem ColumnsChecked.step (h : w.ColumnsChecked) (hs : w.step ev = some w') :
    w'.ColumnsChecked := by
  rcases step_request hs with rfl | ⟨data, rfl, hdata, rfl⟩ |
    ⟨i, action, txn, rfl, hvalid, haccept, rfl⟩ | ⟨hev, hm⟩
  · exact h
  · refine ⟨fun row hrow => ?_, h.txns⟩
    rcases List.mem_append.mp hrow with hrow | hrow
    · exact h.rows row hrow
    · obtain rfl := List.mem_singleton.mp hrow
      obtain ⟨hname, hdata⟩ := Raises.check_eq_ok_iff.mp hdata
      obtain ⟨hsize, -⟩ := Raises.check_eq_ok_iff.mp hdata
      exact ICPProfile.checkColumns_eq_ok_iff.mpr ⟨hname, hsize⟩
  · exact ⟨h.rows, Slots.All.set h.txns (h.accept hvalid haccept)⟩
  · exact h.move hm hev

end IcpWorld

/-! ## A company for every profile -/

namespace Scoring

open Domain PyStr

variable {U : Unicode} {p : ICPProfile}

/-- A text for an entry of a filter: the entry itself, or any text if it is empty. -/
theorem exists_infix_lowered (U : Unicode) (entry : String) :
    ∃ s : List Char, s ≠ [] ∧ lowered U entry <:+: U.lower s := by
  by_cases h : entry.toList = []
  · refine ⟨['a'], List.cons_ne_nil _ _, ?_⟩
    have hlower : lowered U entry = [] := by
      unfold lowered
      rw [h]
      exact U.lower_ascii [] fun _ hc => nomatch hc
    rw [hlower]
    exact List.nil_infix
  · exact ⟨entry.toList, h, List.infix_rfl⟩

/-- Some number of employees is within the bounds. -/
theorem exists_employees (hp : p.checkColumns = .ok ()) :
    ∃ e, (∀ lo ∈ minEmployees p, lo ≤ e) ∧ ∀ hi ∈ maxEmployees p, e ≤ hi := by
  unfold minEmployees maxEmployees
  cases hsize : p.sizeFilter with
  | none => exact ⟨0, by simp, by simp⟩
  | some size =>
    have hvalid : size.validate = .ok () := by
      have h := (ICPProfile.checkColumns_eq_ok_iff.mp hp).2
      rw [hsize] at h
      exact h
    have hrange := (SizeFilter.validate_eq_ok_iff.mp hvalid).2.1
    simp only [Option.bind_some]
    cases hlo : size.minEmployees with
    | some lo =>
      refine ⟨lo, by simp, fun hi hhi => ?_⟩
      exact (hrange lo hlo hi hhi).le
    | none =>
      cases hhi : size.maxEmployees with
      | some hi => exact ⟨hi, by simp, by simp⟩
      | none => exact ⟨0, by simp, by simp⟩

/-- No profile that passes the checks asks for what no company can be. -/
theorem exists_matches (hp : p.checkColumns = .ok ()) :
    ∃ x, ∀ c, Configured p c → Matches U p x c := by
  have hindustry : ∃ s : Option (List Char), Configured p .industry → ∃ t ∈ s, t ≠ [] ∧
      ∃ ind ∈ industries p, lowered U ind <:+: U.lower t ∨ U.lower t <:+: lowered U ind := by
    cases h : industries p with
    | nil => exact ⟨none, fun hc => absurd h hc⟩
    | cons ind rest =>
      obtain ⟨s, hne, hs⟩ := exists_infix_lowered U ind
      exact ⟨some s, fun _ => ⟨s, rfl, hne, ind, List.mem_cons_self, .inl hs⟩⟩
  have hlocation : ∃ s : Option (List Char), Configured p .geography → ∃ t ∈ s, t ≠ [] ∧
      ∃ loc ∈ locations p, lowered U loc <:+: U.lower t := by
    cases h : locations p with
    | nil => exact ⟨none, fun hc => absurd h hc⟩
    | cons loc rest =>
      obtain ⟨s, hne, hs⟩ := exists_infix_lowered U loc
      exact ⟨some s, fun _ => ⟨s, rfl, hne, loc, List.mem_cons_self, hs⟩⟩
  obtain ⟨industry, hindustry⟩ := hindustry
  obtain ⟨location, hlocation⟩ := hlocation
  obtain ⟨e, hmin, hmax⟩ := exists_employees hp
  refine ⟨⟨industry, some e, location, (technologies p).map String.toList⟩, fun c hc => ?_⟩
  cases c with
  | industry => exact hindustry hc
  | size => exact ⟨e, rfl, hmin, hmax⟩
  | geography => exact hlocation hc
  | technology =>
    obtain ⟨tf, htf⟩ := List.exists_mem_of_ne_nil _ hc
    exact ⟨tf, htf, tf.toList, List.mem_map_of_mem htf, rfl⟩

theorem exists_score_eq_hundred_iff (hp : p.checkColumns = .ok ()) :
    (∃ x, calculateIcpScore U p x = 100) ↔ ∃ c, Configured p c := by
  constructor
  · rintro ⟨x, hx⟩
    by_contra hnone
    have hcriteria : criteria U p x = [] := by
      rw [criteria_eq_filterMap, List.filterMap_eq_nil_iff]
      intro c _
      exact criterion_eq_none.mpr fun hc => hnone ⟨c, hc⟩
    unfold calculateIcpScore at hx
    rw [hcriteria] at hx
    exact absurd hx (by decide +kernel)
  · intro hsome
    obtain ⟨x, hx⟩ := exists_matches hp
    exact ⟨x, (calculateIcpScore_eq_hundred_iff hsome).mpr hx⟩

end Scoring

/-! ## Runs -/

/-- In every interleaving of the requests, the columns of each row pass the checks of the
validators, and some company scores 100 if there is anything to score. -/
theorem columnsChecked_always (U : Unicode) (events : List IcpEvent) :
    Run.AllStates IcpWorld.step
      (fun w => ∀ row ∈ w.table.profiles, row.checkColumns = .ok () ∧
        ((∃ x, Scoring.calculateIcpScore U row x = 100) ↔ ∃ c, Scoring.Configured row c))
      (IcpWorld.init .init) events := by
  have hinv : Run.AllStates IcpWorld.step IcpWorld.ColumnsChecked (IcpWorld.init .init) events :=
    Run.AllStates.of_inv (C := fun _ _ => True) (fun w ev w' h _ hs => h.step hs)
      IcpWorld.columnsChecked_init (Run.AllSteps.of_forall (fun _ _ => trivial) _ _)
  refine hinv.mono fun w h row hrow => ?_
  have hchecked := h.rows row hrow
  exact ⟨hchecked, Scoring.exists_score_eq_hundred_iff hchecked⟩

end LeadPulse
