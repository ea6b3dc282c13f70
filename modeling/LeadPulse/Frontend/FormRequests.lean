import LeadPulse.Frontend.ProfileForm

/-!
# Profiles that are edited with forms

All that creates or changes profiles are forms, any number of them open at the same time. A form
sends all filters, so the gap in the validator of updates is closed: what a form leaves has a
positive filter. A commit writes only what the form has changed, though. By `formsKeepFilters_iff`
profiles lose their last filter exactly by saves of which another one has changed the filters in
between (`tornSave`).
-/

namespace LeadPulse
namespace Frontend

/-! ## Forms as clients -/

inductive FormEvent where
  /-- A form is sent: a new profile, or an update that runs in the slot `i`. -/
  | submit (i : ℕ) (editing : Option ℕ) (f : FormState)
  | other (ev : IcpEvent)
deriving DecidableEq, Repr

/-- The event is a request with filters. -/
def sendsFilters : IcpEvent → Bool
  | .create _ | .begin _ (.update _ _) => true
  | _ => false

/-- What a form sends: `onSubmit` of a new form and of one that edits a profile. -/
def request (J : JsNumber) (i : ℕ) (editing : Option ℕ) (f : FormState) : Option IcpEvent :=
  (f.submit J).bind fun body =>
    match editing with
    | none => body.create.toOption.map .create
    | some profileId => body.update.toOption.map fun data => .begin i (.update profileId data)

/-- A form that is not sent, or whose body is not valid, changes nothing. -/
def formStep (J : JsNumber) (w : IcpWorld) : FormEvent → Option IcpWorld
  | .submit i editing f =>
    match request J i editing f with
    | none => some w
    | some ev => w.step ev
  | .other ev => if sendsFilters ev then none else w.step ev

/-! ## The condition -/

/-- The positive filters. -/
def positives (p : ICPProfile) :
    Option (List String) × Option SizeFilter × Option GeoFilter × Option (List String) :=
  (p.industryFilter, p.sizeFilter, p.geoFilter, p.techFilter)

/-- An update commits after the filters of its row have been changed, and of the filters that it
leaves and those that it writes none is left. -/
def tornSave (w : IcpWorld) : FormEvent → Bool
  | .other (.commit i) =>
    match w.txns i with
    | some (.write loaded (.update data) true) => (w.table.get loaded.id).any fun row =>
        positives row ≠ positives loaded ∧
          (loaded.flush (IcpTable.patched data loaded) row).hasPositive = false
    | _ => false
  | _ => false

/-! ## What a form sends -/

variable {J : JsNumber} {w w' : IcpWorld}

theorem update_of_ok {body : ProfileBody} {data : ICPProfileUpdate} (h : body.update = .ok data) :
    data.validate = .ok () ∧ data.name ≠ .set none ∧
      data.provided.length = data.positive.length := by
  unfold ProfileBody.update at h
  obtain ⟨size, -, h⟩ := Raises.ok_of_bind h
  obtain ⟨hvalid, hdata⟩ := Raises.check_eq_ok_iff.mp h
  obtain rfl := Except.ok.inj hdata
  refine ⟨hvalid, ?_, rfl⟩
  intro hname
  cases hname

/-- A form creates a profile, or updates all filters of one. -/
theorem request_cases {i : ℕ} {editing : Option ℕ} {f : FormState} {ev : IcpEvent}
    (h : request J i editing f = some ev) :
    (∃ data, ev = .create data) ∨
    ∃ profileId data, ev = .begin i (.update profileId data) ∧ data.validate = .ok () ∧
      data.name ≠ .set none ∧ data.provided.length = data.positive.length := by
  obtain ⟨body, -, h⟩ := Option.bind_eq_some_iff.mp h
  cases editing with
  | none =>
    obtain ⟨data, -, rfl⟩ := Option.map_eq_some_iff.mp h
    exact .inl ⟨data, rfl⟩
  | some profileId =>
    obtain ⟨data, hdata, rfl⟩ := Option.map_eq_some_iff.mp h
    cases hu : body.update with
    | error e =>
      rw [hu] at hdata
      cases hdata
    | ok data' =>
      rw [hu] at hdata
      obtain rfl : data' = data := Option.some.inj hdata
      exact .inr ⟨profileId, data', rfl, update_of_ok hu⟩

/-- A step with forms is a step of the table, in which updates set all filters. -/
theorem formStep_cases {ev : FormEvent} (h : formStep J w ev = some w') :
    w' = w ∨ ∃ ev', w.step ev' = some w' ∧ (ev'.slot ≠ none → ev = .other ev') ∧
      ∀ i profileId data, ev' = .begin i (.update profileId data) → data.validate = .ok () ∧
        data.name ≠ .set none ∧ data.provided.length = data.positive.length := by
  cases ev with
  | submit i editing f =>
    cases hreq : request J i editing f with
    | none =>
      rw [formStep, hreq] at h
      exact .inl (Option.some.inj h).symm
    | some ev' =>
      rw [formStep, hreq] at h
      refine .inr ⟨ev', h, ?_, ?_⟩
      · rcases request_cases hreq with ⟨data, rfl⟩ | ⟨profileId, data, rfl, -⟩
        · exact fun hslot => absurd rfl hslot
        · exact fun hslot => absurd rfl hslot
      · rintro j profileId data rfl
        rcases request_cases hreq with ⟨data', hev⟩ | ⟨profileId', data', hev, hdata⟩
        · cases hev
        · cases hev
          exact hdata
  | other ev' =>
    rw [formStep] at h
    split at h
    · cases h
    · rename_i hother
      refine .inr ⟨ev', h, fun _ => rfl, ?_⟩
      rintro j profileId data rfl
      exact absurd rfl hother

/-! ## The filters of a row that is saved -/

/-- All updates in flight leave a positive filter in the row that they have loaded. -/
def WritesFilters (loaded : ICPProfile) (op : RowWrite) : Prop :=
  ∀ data, op = .update data → (IcpTable.patched data loaded).hasPositive = true

theorem positives_eq_iff {p p' : ICPProfile} : positives p = positives p' ↔
    p.industryFilter = p'.industryFilter ∧ p.sizeFilter = p'.sizeFilter ∧
      p.geoFilter = p'.geoFilter ∧ p.techFilter = p'.techFilter := by
  unfold positives
  simp only [Prod.mk.injEq]

theorem hasPositive_congr {p p' : ICPProfile} (h : positives p = positives p') :
    p.hasPositive = p'.hasPositive := by
  obtain ⟨hindustry, hsize, hgeo, htech⟩ := positives_eq_iff.mp h
  unfold ICPProfile.hasPositive
  rw [hindustry, hsize, hgeo, htech]

variable {loaded modified row : ICPProfile}

theorem pick_eq {β : Type} [DecidableEq β] {field : ICPProfile → β}
    (h : field row = field loaded) :
    ICPProfile.flush.pick loaded modified row field = field modified := by
  unfold ICPProfile.flush.pick
  split
  · rename_i hsame
    rw [h, hsame]
  · rfl

/-- The filters of a row that nobody has changed since it was loaded are those of the form. -/
theorem positives_flush (h : positives row = positives loaded) :
    positives (loaded.flush modified row) = positives modified := by
  obtain ⟨hindustry, hsize, hgeo, htech⟩ := positives_eq_iff.mp h
  exact positives_eq_iff.mpr ⟨pick_eq hindustry, pick_eq hsize, pick_eq hgeo, pick_eq htech⟩

/-- A write that leaves the filters as they were loaded leaves those of the row. -/
theorem positives_flush_same (h : positives modified = positives loaded) :
    positives (loaded.flush modified row) = positives row := by
  obtain ⟨hindustry, hsize, hgeo, htech⟩ := positives_eq_iff.mp h
  exact positives_eq_iff.mpr ⟨if_pos hindustry, if_pos hsize, if_pos hgeo, if_pos htech⟩

theorem positives_switch (target : ℕ) (cleared : List ℕ) :
    positives (row.switch target cleared) = positives row := by
  unfold ICPProfile.switch
  split
  · rfl
  · split <;> rfl

/-! ## Steps -/

/-- The profiles have a positive filter, and no form is about to take it away. -/
structure FiltersWritten (w : IcpWorld) : Prop where
  rows : FiltersKept w.table
  txns : Slots.All (fun _ txn => txn.Writes WritesFilters) w.txns

theorem filtersWritten_init : FiltersWritten (.init .init) where
  rows := fun _ hrow => nomatch hrow
  txns := Slots.All.none

theorem writes_of_accept {action : IcpAction} {txn : IcpTxn}
    (hdata : ∀ profileId data, action = .update profileId data → data.validate = .ok () ∧
      data.name ≠ .set none ∧ data.provided.length = data.positive.length)
    (haccept : action.accept (w.table.get action.profileId) = .ok txn) :
    txn.Writes WritesFilters := by
  cases hget : w.table.get action.profileId with
  | none =>
    rw [hget] at haccept
    cases action <;> cases haccept
  | some row =>
    rw [hget] at haccept
    refine IcpAction.accept_writes haccept ?_ (fun _ he => nomatch he) (fun _ he => nomatch he)
    intro profileId data hupdate data' he
    obtain rfl : data = data' := RowWrite.update.inj he
    obtain ⟨hvalid, hname, hall⟩ := hdata profileId data hupdate
    rw [IcpTable.hasPositive_patched hname,
      ICPProfileUpdate.provided_of_validate hvalid hall, Bool.true_or]

/-- The commit of a write. -/
theorem FiltersWritten.commitWrite (h : FiltersWritten w) {i : ℕ} {op : RowWrite}
    (hi : w.txns i = some (.write loaded op true))
    (hc : ¬ tornSave w (.other (.commit i)) = true) :
    FiltersKept (w.commitWrite i loaded op).table := by
  intro row hrow
  cases op with
  | delete => exact h.rows row (List.mem_filter.mp hrow).1
  | deactivate =>
    obtain ⟨row, hmem, rfl⟩ := List.mem_map.mp hrow
    split
    · exact (hasPositive_congr (positives_flush_same rfl)).trans (h.rows row hmem)
    · exact h.rows row hmem
  | update data =>
    obtain ⟨row, hmem, rfl⟩ := List.mem_map.mp hrow
    split
    · rename_i hid
      have hget : w.table.get loaded.id = some row := hid ▸ Table.get_of_mem w.table.keyed hmem
      simp only [tornSave, hi, hget, Option.any_some, decide_eq_true_eq, not_and_or,
        Bool.not_eq_false] at hc
      rcases hc with hsame | hkept
      · rw [hasPositive_congr (positives_flush (not_not.mp hsame))]
        exact h.txns i _ hi data rfl
      · exact hkept
    · exact h.rows row hmem

theorem FiltersWritten.step (h : FiltersWritten w) {ev : FormEvent}
    (hc : ¬ tornSave w ev = true) (hs : formStep J w ev = some w') : FiltersWritten w' := by
  rcases formStep_cases hs with rfl | ⟨ev', hs, hother, hdata⟩
  · exact h
  rcases IcpWorld.step_request hs with rfl | ⟨data, rfl, hvalid, rfl⟩ |
    ⟨i, action, txn, rfl, -, haccept, rfl⟩ | ⟨hev, hm⟩
  · exact h
  · refine ⟨fun row hrow => ?_, h.txns⟩
    rcases List.mem_append.mp hrow with hrow | hrow
    · exact h.rows row hrow
    · obtain rfl := List.mem_singleton.mp hrow
      exact ICPProfileCreate.hasPositive_of_validate hvalid
  · refine ⟨h.rows, Slots.All.set h.txns (writes_of_accept ?_ haccept)⟩
    rintro profileId data rfl
    exact hdata i profileId data rfl
  · refine ⟨?_, hm.writes hev h.txns⟩
    rcases hm.table_cases hev with htable | ⟨i, loaded, op, rfl, hi, rfl⟩ |
      ⟨i, target, cleared, rfl, hi, rfl⟩
    · rw [htable]
      exact h.rows
    · obtain rfl := hother hev
      exact h.commitWrite hi hc
    · intro row hrow
      obtain ⟨row, hmem, rfl⟩ := List.mem_map.mp hrow
      exact (hasPositive_congr (positives_switch target cleared)).trans (h.rows row hmem)

/-- A torn save leaves its row without a filter. -/
theorem not_filtersKept_of_tornSave {ev : FormEvent} (hc : tornSave w ev = true)
    (hs : formStep J w ev = some w') : ¬ FiltersKept w'.table := by
  unfold tornSave at hc
  split at hc
  · rename_i i
    split at hc
    · rename_i loaded data hi
      cases hget : w.table.get loaded.id with
      | none =>
        rw [hget] at hc
        cases hc
      | some row =>
        rw [hget, Option.any_some, decide_eq_true_eq] at hc
        have hw : some (w.commitWrite i loaded (.update data)) = some w' := by
          rw [← hs, formStep, if_neg (by simp [sendsFilters]), IcpWorld.step, hi]
          rfl
        obtain rfl := Option.some.inj hw
        intro hkept
        have hmem : loaded.flush (IcpTable.patched data loaded) row ∈
            (w.commitWrite i loaded (.update data)).table.profiles :=
          List.mem_map.mpr ⟨row, Table.mem_of_get hget, if_pos (Table.key_of_get hget)⟩
        have hpos := hkept _ hmem
        rw [hc.2] at hpos
        cases hpos
    · cases hc
  · cases hc

/-! ## Runs -/

/-- All profiles keep a positive filter, whatever forms are sent at the same time, exactly if no
save is torn. -/
theorem formsKeepFilters_iff (J : JsNumber) (events : List FormEvent) :
    Run.AllStates (formStep J) (fun w => FiltersKept w.table) (.init .init) events ↔
      Run.AllSteps (formStep J) (fun w ev => ¬ tornSave w ev = true) (.init .init) events :=
  Run.allStates_iff_allSteps (I := FiltersWritten) (fun _ h => h.rows)
    (fun _ _ _ h hc hs => h.step hc hs)
    (fun _ _ _ _ hc hs => not_filtersKept_of_tornSave (not_not.mp hc) hs)
    filtersWritten_init events

def shopForm : FormState := { name := "Shops", industryFilter := ["Retail"], techFilter := ["POS"] }

/-- Two forms are open for one profile. One takes its industry away, the other one its technology:
each leaves a filter, and both leave none. -/
example : (Run.exec (formStep .whole) (.init .init)
    [.submit 0 none shopForm,
     .submit 0 (some 1) { shopForm with industryFilter := [] },
     .submit 1 (some 1) { shopForm with techFilter := [] },
     .other (.flush 0), .other (.commit 0), .other (.flush 1), .other (.commit 1)]).any
      (fun w => w.table.profiles.any (! ·.hasPositive)) = true := by
  decide +kernel

end Frontend
end LeadPulse
