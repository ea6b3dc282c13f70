import LeadPulse.Icp.OneActive

/-!
# Giving up the active profile

Runs without `deactivate` requests, from a table with an active profile. Two things go wrong in
them, both because what `get_profile` has read is out of date when the locks are there:

* an activation whose target has been deleted clears all rows and sets none
  (`deletedTarget_clears`);
* a `delete` of a profile that was not active, but has been activated since, deletes it.

By `activeKept_iff` nothing else does: there is always an active profile, an activation leaves
its target active, or the profiles from before, and the active profile is not deleted. By
`keepsActive_delete` the second one takes an activation of the profile that is committed between
`get_profile` and the commit of the `delete`.
-/

namespace LeadPulse

/-! ## The property and its condition -/

namespace IcpWorld

/-- A step of a run without `deactivate` requests. -/
def stepKeeping (w : IcpWorld) : IcpEvent → Option IcpWorld
  | .begin _ (.deactivate _) => none
  | ev => w.step ev

/-- A profile is active, every activation has left its target active or the profiles from
before, and no active profile has been deleted. -/
structure ActiveKept (w : IcpWorld) : Prop where
  active : w.table.activeIds ≠ []
  activated : w.misactivated = []
  deleted : w.deletedActive = []

/-- An activation commits with its target still there, or with no active profile cleared; a
`delete` commits with the profile still not active. -/
def keepsActive (w : IcpWorld) : IcpEvent → Bool
  | .commit i =>
    match w.txns i with
    | some (.activate target (.set cleared)) =>
      (w.table.get target).isSome ∨ ∀ k ∈ w.table.activeIds, k ∉ cleared
    | some (.write loaded .delete true) => (w.table.get loaded.id).all (! ·.isActive)
    | _ => true
  | _ => true

end IcpWorld

/-! ## The active profiles -/

namespace IcpTable

variable {table : IcpTable} {k target profileId : ℕ} {cleared : List ℕ}
  {f : ICPProfile → ICPProfile} {loaded : ICPProfile}

/-- An `UPDATE` that leaves `is_active` as it is. -/
theorem activeIds_mapRows_eq (hf : ∀ row, (f row).id = row.id)
    (h : ∀ row ∈ table.profiles, (f row).isActive = row.isActive) :
    (table.mapRows f hf).activeIds = table.activeIds := by
  show ((table.profiles.map f).filter (·.isActive)).map (·.id) =
    (table.profiles.filter (·.isActive)).map (·.id)
  rw [List.filter_map, List.map_map]
  have hid : (fun row : ICPProfile => row.id) ∘ f = fun row => row.id := funext hf
  rw [hid]
  exact congrArg _ (List.filter_congr h)

theorem activeIds_update (data : ICPProfileUpdate) :
    (table.save loaded (patched data loaded)).activeIds = table.activeIds := by
  refine activeIds_mapRows_eq _ fun row _ => ?_
  split
  · exact isActive_flush (isActive_patched data loaded)
  · rfl

theorem activeIds_delete_inactive (h : (table.get profileId).all (! ·.isActive) = true) :
    (table.deleteProfile profileId).activeIds = table.activeIds := by
  show ((table.profiles.filter _).filter _).map _ = (table.profiles.filter _).map _
  rw [List.filter_filter]
  refine congrArg _ (List.filter_congr fun row hrow => ?_)
  by_cases hid : row.id = profileId
  · rw [← hid, show table.get row.id = some row from Table.get_of_mem table.keyed hrow] at h
    have hoff : row.isActive = false := by simpa using h
    simp [hoff]
  · simp [hid]

/-- An activation that sets no row and clears no active one. -/
theorem activeIds_activate_eq (hget : table.get target = none)
    (hcleared : ∀ k ∈ table.activeIds, k ∉ cleared) :
    (table.activate target cleared).activeIds = table.activeIds := by
  refine activeIds_mapRows_eq _ fun row hrow => ?_
  have hne : row.id ≠ target := by
    intro he
    exact get_of_mem_ids (List.mem_map_of_mem hrow) (he ▸ hget)
  unfold ICPProfile.switch
  rw [if_neg hne]
  cases hactive : row.isActive with
  | false => split <;> simp [hactive]
  | true =>
    rw [if_neg (hcleared row.id (mem_activeIds hrow hactive))]
    exact hactive

/-- Besides the target, a row is active after an activation only if it was so before and has not
been cleared. -/
theorem mem_activeIds_activate (h : k ∈ (table.activate target cleared).activeIds)
    (hk : k ≠ target) : k ∈ table.activeIds ∧ k ∉ cleared := by
  obtain ⟨row', hrow', rfl⟩ := List.mem_map.mp h
  obtain ⟨hrow', hactive⟩ := List.mem_filter.mp hrow'
  obtain ⟨row, hrow, rfl⟩ := List.mem_map.mp hrow'
  rw [ICPProfile.switch_id] at hk ⊢
  unfold ICPProfile.switch at hactive
  rw [if_neg hk] at hactive
  split at hactive
  · cases hactive
  · rename_i hmem
    exact ⟨mem_activeIds hrow hactive, hmem⟩

/-- A profile that is not among the active ones. -/
theorem all_inactive (h : k ∉ table.activeIds) : (table.get k).all (! ·.isActive) = true := by
  cases hget : table.get k with
  | none => rfl
  | some row =>
    cases hactive : row.isActive with
    | false => simp [hactive]
    | true =>
      have hid : row.id = k := Table.key_of_get hget
      exact absurd (hid ▸ mem_activeIds (Table.mem_of_get hget) hactive) h

theorem not_mem_activeIds (h : (table.get k).all (! ·.isActive) = true) : k ∉ table.activeIds := by
  intro hk
  obtain ⟨row, hrow, rfl⟩ := List.mem_map.mp hk
  obtain ⟨hrow, hactive⟩ := List.mem_filter.mp hrow
  have hget : table.get row.id = some row := Table.get_of_mem table.keyed hrow
  rw [hget] at h
  simp [hactive] at h

end IcpTable

/-! ## One step -/

namespace IcpWorld

variable {w w' : IcpWorld} {ev : IcpEvent} {i target : ℕ} {cleared : List ℕ}
  {loaded : ICPProfile}

theorem step_of_stepKeeping (h : w.stepKeeping ev = some w') :
    w.step ev = some w' ∧ ∀ i profileId, ev ≠ .begin i (.deactivate profileId) := by
  unfold stepKeeping at h
  split at h
  · cases h
  · rename_i hev
    exact ⟨h, hev⟩

/-- No request deactivates its profile. -/
def NoDeactivate (w : IcpWorld) : Prop :=
  Slots.All (fun _ txn => ∀ loaded flushed, txn ≠ .write loaded .deactivate flushed) w.txns

theorem accept_deactivate {action : IcpAction} {profile : Option ICPProfile} {flushed : Bool}
    (h : action.accept profile = .ok (.write loaded .deactivate flushed)) :
    ∃ profileId, action = .deactivate profileId := by
  cases profile with
  | none => cases action <;> cases h
  | some row =>
    cases action with
    | deactivate profileId => exact ⟨profileId, rfl⟩
    | update profileId data => cases h
    | activate profileId => cases h
    | delete profileId =>
      simp only [IcpAction.accept] at h
      split at h <;> cases h

/-- A transaction goes on with what it does to its profile. -/
theorem NoDeactivate.goOn {txn : IcpTxn} (h : w.NoDeactivate)
    (htxn : ∀ loaded flushed, txn ≠ .write loaded .deactivate flushed) :
    (w.goOn i txn).NoDeactivate :=
  Slots.All.set h htxn

theorem NoDeactivate.finish (h : w.NoDeactivate) (i : ℕ) : (w.finish i).NoDeactivate :=
  Slots.All.clear h

theorem NoDeactivate.move (h : w.NoDeactivate) (hm : IcpMove w ev w')
    (hev : ∀ i profileId, ev ≠ .begin i (.deactivate profileId)) : w'.NoDeactivate := by
  have visited : ∀ {i k w₁}, w.visit i k = some w₁ → w₁.NoDeactivate := by
    intro i k w₁ hvisit
    obtain ⟨locks, rfl⟩ := visit_locks hvisit
    exact h
  cases hm with
  | refused => exact h
  | created => exact h
  | begun i action txn free accepted =>
    refine h.goOn fun loaded flushed he => ?_
    rw [he] at accepted
    obtain ⟨profileId, rfl⟩ := accept_deactivate accepted
    exact hev i profileId rfl
  | flushed i loaded op w₁ txn hvisit =>
    have h₁ : w₁.NoDeactivate := by
      rcases hvisit with rfl | hvisit
      · exact h
      · exact visited hvisit
    refine h₁.goOn fun loaded' flushed he => ?_
    cases he
    exact h i _ txn loaded false rfl
  | lockAll => exact h.goOn fun _ _ he => nomatch he
  | lock i target k todo w₁ txn hvisit => exact (visited hvisit).goOn fun _ _ he => nomatch he
  | clearAll => exact h.goOn fun _ _ he => nomatch he
  | clear i target k todo cleared w₁ txn hvisit =>
    exact (visited hvisit).goOn fun _ _ he => nomatch he
  | set i target cleared w₁ txn hvisit => exact (visited hvisit).goOn fun _ _ he => nomatch he
  | wrote i loaded op =>
    cases op with
    | update => exact h.finish i
    | deactivate => exact h.finish i
    | delete => exact h.finish i
  | activated i => exact h.finish i
  | ended i k w₁ hvisit =>
    rcases hvisit with rfl | hvisit
    · exact h.finish i
    · exact (visited hvisit).finish i

/-! ### Commits -/

/-- An activation that meets the condition. -/
theorem ActiveKept.commitActivate (hinv : w.Inv) (h : w.ActiveKept)
    (hi : w.txns i = some (.activate target (.set cleared)))
    (hc : (w.table.get target).isSome = true ∨ ∀ k ∈ w.table.activeIds, k ∉ cleared) :
    (w.commitActivate i target cleared).ActiveKept := by
  have hids : (w.table.activate target cleared).activeIds = [target] ∨
      (w.table.activate target cleared).activeIds = w.table.activeIds := by
    by_cases hget : w.table.get target = none
    · right
      have hkept := hc.resolve_left (by rw [hget]; exact Bool.false_ne_true)
      exact IcpTable.activeIds_activate_eq hget hkept
    · left
      exact IcpTable.activeIds_activate hget
        ((hinv.clears i target _ hi cleared rfl).resolve_left hget)
  refine ⟨?_, (if_pos hids).trans h.activated, h.deleted⟩
  show (w.table.activate target cleared).activeIds ≠ []
  rcases hids with hids | hids
  · rw [hids]
    exact List.cons_ne_nil target []
  · rw [hids]
    exact h.active

/-- An activation that does not: it has cleared an active row, and there is no target to set. -/
theorem not_activeKept_commitActivate (hget : w.table.get target = none)
    {k : ℕ} (hk : k ∈ w.table.activeIds) (hcleared : k ∈ cleared) :
    ¬ (w.commitActivate i target cleared).ActiveKept := by
  have hids : ∀ j ∈ w.table.activeIds, j ≠ target := by
    intro j hj he
    subst he
    exact IcpTable.get_of_mem_ids ((IcpTable.activeIds_sublist w.table).subset hj) hget
  have hbroken : ¬ ((w.table.activate target cleared).activeIds = [target] ∨
      (w.table.activate target cleared).activeIds = w.table.activeIds) := by
    rintro (hone | hsame)
    · have hsub : (w.table.activate target cleared).activeIds.Sublist w.table.activeIds :=
        IcpTable.activeIds_activate_gone hget
      rw [hone] at hsub
      exact hids target (hsub.subset (List.mem_singleton.mpr rfl)) rfl
    · rw [← hsame] at hk
      exact (IcpTable.mem_activeIds_activate hk (hids k (hsame ▸ hk))).2 hcleared
  intro h
  have hlog : w.misactivated ++ [target] = [] := (if_neg hbroken).symm.trans h.activated
  exact List.append_ne_nil_of_right_ne_nil _ (List.cons_ne_nil target []) hlog

/-- A `delete` that meets the condition. -/
theorem ActiveKept.commitDelete (h : w.ActiveKept)
    (hc : (w.table.get loaded.id).all (! ·.isActive) = true) :
    (w.commitWrite i loaded .delete).ActiveKept := by
  refine ⟨?_, h.activated, ?_⟩
  · show (w.table.deleteProfile loaded.id).activeIds ≠ []
    rw [IcpTable.activeIds_delete_inactive hc]
    exact h.active
  · have hoff : ¬ (w.table.get loaded.id).any (·.isActive) = true := by
      cases hget : w.table.get loaded.id with
      | none => exact Bool.false_ne_true
      | some row =>
        rw [hget] at hc
        simpa using hc
    exact (if_neg hoff).trans h.deleted

theorem not_activeKept_commitDelete
    (hc : ¬ (w.table.get loaded.id).all (! ·.isActive) = true) :
    ¬ (w.commitWrite i loaded .delete).ActiveKept := by
  have hon : (w.table.get loaded.id).any (·.isActive) = true := by
    cases hget : w.table.get loaded.id with
    | none =>
      rw [hget] at hc
      exact absurd rfl hc
    | some row =>
      rw [hget] at hc
      simpa using hc
  intro h
  have hlog : w.deletedActive ++ [loaded.id] = [] := (if_pos hon).symm.trans h.deleted
  exact List.append_ne_nil_of_right_ne_nil _ (List.cons_ne_nil loaded.id []) hlog

/-- What a step that meets the condition keeps. -/
theorem ActiveKept.move (hinv : w.Inv) (hno : w.NoDeactivate) (h : w.ActiveKept)
    (hm : IcpMove w ev w') (hc : w.keepsActive ev = true) : w'.ActiveKept := by
  rcases hm.effect with ⟨htable, hmis, hdel⟩ | ⟨data, rfl⟩ | ⟨i, loaded, op, rfl, hi, rfl⟩ |
    ⟨i, target, cleared, rfl, hi, rfl⟩
  · refine ⟨?_, hmis.trans h.activated, hdel.trans h.deleted⟩
    rw [htable]
    exact h.active
  · refine ⟨?_, h.activated, h.deleted⟩
    show (w.table.createProfile data).activeIds ≠ []
    rw [IcpTable.activeIds_createProfile]
    exact h.active
  · simp only [keepsActive, hi] at hc
    cases op with
    | update data =>
      refine ⟨?_, h.activated, h.deleted⟩
      show (w.table.save loaded (IcpTable.patched data loaded)).activeIds ≠ []
      rw [IcpTable.activeIds_update]
      exact h.active
    | deactivate => exact absurd rfl (hno i _ hi loaded true)
    | delete => exact h.commitDelete hc
  · simp only [keepsActive, hi] at hc
    exact h.commitActivate hinv hi (of_decide_eq_true hc)

theorem step_commit {i : ℕ} {txn : IcpTxn} (hi : w.txns i = some txn) :
    w.step (.commit i) = w.resume i txn (.commit i) := by
  show ((w.txns i).bind fun txn => w.resume i txn (.commit i)) = _
  rw [hi]
  rfl

/-- A step that does not meet the condition is such a commit. -/
theorem not_activeKept_step (hs : w.step ev = some w') (hc : ¬ w.keepsActive ev = true) :
    ¬ w'.ActiveKept := by
  unfold keepsActive at hc
  split at hc
  · rename_i i
    split at hc
    · rename_i target cleared hi
      have hw : some (w.commitActivate i target cleared) = some w' := by
        rw [← hs, step_commit hi]
        rfl
      obtain rfl := Option.some.inj hw
      rw [decide_eq_true_eq, not_or] at hc
      obtain ⟨hget, hk⟩ := hc
      push Not at hk
      obtain ⟨k, hk, hcleared⟩ := hk
      exact not_activeKept_commitActivate (by simpa using hget) hk hcleared
    · rename_i loaded hi
      have hw : some (w.commitWrite i loaded .delete) = some w' := by
        rw [← hs, step_commit hi]
        rfl
      obtain rfl := Option.some.inj hw
      exact not_activeKept_commitDelete hc
    · exact absurd rfl hc
  · exact absurd rfl hc

/-! ### An activation in between -/

/-- An activation of the profile commits. -/
def Activates (profileId : ℕ) (w : IcpWorld) : IcpEvent → Prop
  | .commit i => ∃ cleared, w.txns i = some (.activate profileId (.set cleared))
  | _ => False

/-- A profile becomes active only by such a commit. -/
theorem inactive_move {k : ℕ} (hm : IcpMove w ev w') (hk : k ∉ w.table.activeIds)
    (hc : ¬ Activates k w ev) : k ∉ w'.table.activeIds := by
  rcases hm.effect with ⟨htable, -, -⟩ | ⟨data, rfl⟩ | ⟨i, loaded, op, rfl, -, rfl⟩ |
    ⟨i, target, cleared, rfl, hi, rfl⟩
  · rwa [htable]
  · show k ∉ (w.table.createProfile data).activeIds
    rwa [IcpTable.activeIds_createProfile]
  · cases op with
    | delete => exact fun h => hk ((IcpTable.activeIds_deleteProfile _ _).subset h)
    | update data => exact fun h => hk ((IcpTable.activeIds_save (.update data)).subset h)
    | deactivate => exact fun h => hk ((IcpTable.activeIds_save .deactivate).subset h)
  · intro h
    by_cases htarget : k = target
    · subst htarget
      exact hc ⟨cleared, hi⟩
    · exact hk (IcpTable.mem_activeIds_activate h htarget).1

/-- A `delete` of a profile that was not active when it was loaded meets the condition, unless an
activation of the profile has been committed since. -/
theorem keepsActive_delete {events : List IcpEvent}
    (hload : (w.table.get loaded.id).all (! ·.isActive) = true)
    (hno : Run.AllSteps step (fun w ev => ¬ Activates loaded.id w ev) w events)
    (hrun : Run.exec step w events = some w') (hi : w'.txns i = some (.write loaded .delete true)) :
    w'.keepsActive (.commit i) = true := by
  have hkept : Run.AllStates step (fun w => loaded.id ∉ w.table.activeIds) w events :=
    Run.AllStates.of_inv (fun _ _ _ hk hc hs => inactive_move (step_move hs) hk hc)
      (IcpTable.not_mem_activeIds hload) hno
  simp only [keepsActive, hi]
  exact IcpTable.all_inactive (hkept.exec hrun)

end IcpWorld

/-! ## Runs -/

/-- Without `deactivate` requests, the active profile is given up exactly by activations that
commit with their target gone and an active profile cleared, and by `delete` requests that
commit with their profile active. -/
theorem activeKept_iff (table : IcpTable) (h : table.activeIds ≠ []) (events : List IcpEvent) :
    Run.AllStates IcpWorld.stepKeeping IcpWorld.ActiveKept (IcpWorld.init table) events ↔
      Run.AllSteps IcpWorld.stepKeeping (fun w ev => w.keepsActive ev = true)
        (IcpWorld.init table) events := by
  refine Run.allStates_iff_allSteps (I := fun w : IcpWorld => w.Inv ∧ w.NoDeactivate ∧ w.ActiveKept)
    (fun w hw => hw.2.2) (fun w ev w' hw hc hs => ?_) (fun w ev w' _ hc hs => ?_) ?_ events
  · obtain ⟨hstep, hev⟩ := IcpWorld.step_of_stepKeeping hs
    have hm := IcpWorld.step_move hstep
    exact ⟨hw.1.move hm, hw.2.1.move hm hev, hw.2.2.move hw.1 hw.2.1 hm hc⟩
  · exact IcpWorld.not_activeKept_step (IcpWorld.step_of_stepKeeping hs).1 hc
  · exact ⟨IcpWorld.inv_init table, Slots.All.none, h, rfl, rfl⟩

/-- Two profiles, the first of them active. -/
def twoProfiles : IcpTable :=
  let retail : ICPProfileCreate := { name := "Retail", industryFilter := some ["Retail"] }
  let cloud : ICPProfileCreate := { name := "Cloud", techFilter := some ["AWS"] }
  ((IcpTable.init.createProfile retail).createProfile cloud).activate 1 []

/-- The second profile is activated, and then the first one deleted. -/
theorem activeKept_switch :
    Run.AllStates IcpWorld.stepKeeping IcpWorld.ActiveKept (IcpWorld.init twoProfiles)
      [.begin 0 (.activate 2), .lockAll 0, .lock 0 1, .lock 0 2, .clearAll 0, .clear 0 1,
       .clear 0 2, .set 0, .commit 0, .begin 1 (.delete 1), .flush 1, .commit 1] :=
  (activeKept_iff twoProfiles (by decide) _).mpr
    (Run.AllSteps.of_check (fun _ _ h => h) (by decide +kernel))

/-- The second profile is deleted after `get_profile` of its activation: then none is active. -/
theorem deletedTarget_clears :
    ¬ Run.AllStates IcpWorld.stepKeeping IcpWorld.ActiveKept (IcpWorld.init twoProfiles)
      [.begin 0 (.activate 2), .begin 1 (.delete 2), .flush 1, .commit 1, .lockAll 0, .lock 0 1,
       .clearAll 0, .clear 0 1, .set 0, .commit 0] := by
  refine Run.not_allStates (q := fun w => w.table.activeIds.isEmpty) (fun w h => ?_) ?_
  · exact List.isEmpty_eq_false_iff.mpr h.active
  · decide +kernel

end LeadPulse
