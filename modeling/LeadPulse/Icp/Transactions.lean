import LeadPulse.Icp.Profile
import LeadPulse.Lib.Slots

/-!
# Transactions on ICP profiles

The endpoints that change `icp_profiles`, as transactions at READ COMMITTED. A request begins
with `get_profile` and the checks of its endpoint; a statement that writes a row, or reads it
`FOR UPDATE`, has to lock it and keeps the lock to the end of the transaction. The statements of
an activation that go through all rows take their snapshot first and then one row at a time, in
any order. What is written can be seen from the commit on.

The requests in flight are in slots; any of them may move next, and any transaction may be
aborted (a deadlock, a lost connection). An `INSERT` and its commit are one step: the new row is
inactive, and nobody waits for it.
-/

namespace LeadPulse

/-! ## The statements -/

namespace ICPProfile

/-- The columns of the row after an `UPDATE` of what has changed between `loaded` and
`modified`. -/
def flush (loaded modified row : ICPProfile) : ICPProfile :=
  { row with
    name := pick (·.name)
    industryFilter := pick (·.industryFilter)
    sizeFilter := pick (·.sizeFilter)
    geoFilter := pick (·.geoFilter)
    techFilter := pick (·.techFilter)
    negativeFilters := pick (·.negativeFilters)
    isActive := pick (·.isActive) }
where
  pick {β : Type} [DecidableEq β] (field : ICPProfile → β) : β :=
    if field modified = field loaded then field row else field modified

/-- The row after an activation of `target` that has gone through the rows `cleared`. -/
def switch (target : ℕ) (cleared : List ℕ) (row : ICPProfile) : ICPProfile :=
  if row.id = target then { row with isActive := true }
  else if row.id ∈ cleared then { row with isActive := false }
  else row

theorem switch_id (target : ℕ) (cleared : List ℕ) (row : ICPProfile) :
    (row.switch target cleared).id = row.id := by
  unfold switch
  split
  · rfl
  · split <;> rfl

end ICPProfile

/-- What a request does to the profile that it has loaded. -/
inductive RowWrite where
  | update (data : ICPProfileUpdate)
  | deactivate
  | delete
deriving DecidableEq, Repr

/-- The loaded profile as the request leaves it. -/
def RowWrite.modified (loaded : ICPProfile) : RowWrite → ICPProfile
  | .update data => IcpTable.patched data loaded
  | .deactivate => { loaded with isActive := false }
  | .delete => loaded

namespace IcpTable

/-- An `UPDATE` of all rows. -/
def mapRows (table : IcpTable) (f : ICPProfile → ICPProfile) (hf : ∀ row, (f row).id = row.id) :
    IcpTable where
  profiles := table.profiles.map f
  nextId := table.nextId
  id_lt := Table.lt_map table.id_lt hf
  keyed := table.keyed.map hf

/-- The commit of a changed profile. -/
def save (table : IcpTable) (loaded modified : ICPProfile) : IcpTable :=
  table.mapRows (fun row => if row.id = loaded.id then loaded.flush modified row else row)
    fun row => by split <;> rfl

/-- The commit of `delete_profile`. -/
def deleteProfile (table : IcpTable) (profileId : ℕ) : IcpTable where
  profiles := Table.remove ICPProfile.id table.profiles profileId
  nextId := table.nextId
  id_lt := fun row hrow => table.id_lt row (List.mem_filter.mp hrow).1
  keyed := table.keyed.remove

/-- The commit of `activate_profile`. -/
def activate (table : IcpTable) (target : ℕ) (cleared : List ℕ) : IcpTable :=
  table.mapRows (ICPProfile.switch target cleared) (ICPProfile.switch_id target cleared)

def ids (table : IcpTable) : List ℕ := table.profiles.map (·.id)

/-- The active profiles. -/
def activeIds (table : IcpTable) : List ℕ := (table.profiles.filter (·.isActive)).map (·.id)

/-- `ix_icp_profiles_single_active`: an active row that an activation has not cleared. -/
def otherActive (table : IcpTable) (target : ℕ) (cleared : List ℕ) : Bool :=
  table.profiles.any fun row => row.isActive ∧ row.id ≠ target ∧ row.id ∉ cleared

end IcpTable

/-! ## Requests -/

/-- A request for one profile. -/
inductive IcpAction where
  | update (profileId : ℕ) (data : ICPProfileUpdate)
  | activate (profileId : ℕ)
  | deactivate (profileId : ℕ)
  | delete (profileId : ℕ)
deriving DecidableEq, Repr

/-- How far an activation has got. -/
inductive ActivateStage where
  | loaded
  /-- In `SELECT ... FOR UPDATE`, with the rows still to be locked. -/
  | locking (todo : List ℕ)
  /-- In the `UPDATE` of all rows, with those still to be cleared and those it is through with. -/
  | clearing (todo cleared : List ℕ)
  /-- After the `UPDATE` of the target. -/
  | set (cleared : List ℕ)
deriving DecidableEq, Repr

/-- The transaction of a request. -/
inductive IcpTxn where
  /-- A write of the loaded profile, and whether its statement has been executed. -/
  | write (loaded : ICPProfile) (op : RowWrite) (flushed : Bool)
  | activate (target : ℕ) (stage : ActivateStage)
deriving DecidableEq, Repr

namespace IcpAction

def profileId : IcpAction → ℕ
  | update profileId _ | activate profileId | deactivate profileId | delete profileId => profileId

/-- The body of the request is valid. -/
def valid : IcpAction → Bool
  | update _ data => data.validate.isOk
  | _ => true

def profileNotFound : HTTPException := ⟨404, "ICP profile not found"⟩

/-- The endpoint after `get_profile`. -/
def accept : IcpAction → Option ICPProfile → Except HTTPException IcpTxn
  | _, none => .error profileNotFound
  | update _ data, some row => .ok (.write row (.update data) false)
  | activate _, some row => .ok (.activate row.id .loaded)
  | deactivate _, some row =>
    if row.isActive then .ok (.write row .deactivate false)
    else .error ⟨409, "Profile is already inactive"⟩
  | delete _, some row =>
    if row.isActive then .error ⟨409, "Cannot delete the active ICP profile"⟩
    else .ok (.write row .delete false)

end IcpAction

structure IcpWorld where
  table : IcpTable
  /-- The slot whose transaction has locked a row. -/
  locks : ℕ → Option ℕ
  txns : ℕ → Option IcpTxn
  /-- The targets of the activations after which other profiles were active than the target, or
  those from before. -/
  misactivated : List ℕ
  /-- The active profiles that were deleted. -/
  deletedActive : List ℕ

inductive IcpEvent where
  | create (data : ICPProfileCreate)
  | begin (i : ℕ) (action : IcpAction)
  /-- The statement of a write. -/
  | flush (i : ℕ)
  /-- `SELECT id FROM icp_profiles FOR UPDATE` begins, and locks a row. -/
  | lockAll (i : ℕ)
  | lock (i k : ℕ)
  /-- The `UPDATE` of all rows begins, and writes a row. -/
  | clearAll (i : ℕ)
  | clear (i k : ℕ)
  /-- The `UPDATE` of the target. -/
  | set (i : ℕ)
  | commit (i : ℕ)
  | abort (i : ℕ)
deriving DecidableEq, Repr

namespace IcpWorld

def init (table : IcpTable) : IcpWorld where
  table := table
  locks := fun _ => none
  txns := fun _ => none
  misactivated := []
  deletedActive := []

def goOn (w : IcpWorld) (i : ℕ) (txn : IcpTxn) : IcpWorld :=
  { w with txns := Function.update w.txns i (some txn) }

/-- The end of a transaction: its locks are released. -/
def finish (w : IcpWorld) (i : ℕ) : IcpWorld :=
  { w with
    locks := fun k => if w.locks k = some i then none else w.locks k
    txns := Function.update w.txns i none }

def lockRow (w : IcpWorld) (i k : ℕ) : IcpWorld :=
  { w with locks := Function.update w.locks k (some i) }

/-- A statement comes to the row `k`: it passes over a row that is no longer there, and waits
while another transaction has it locked. -/
def visit (w : IcpWorld) (i k : ℕ) : Option IcpWorld :=
  match w.table.get k with
  | none => some w
  | some _ => if w.locks k = none ∨ w.locks k = some i then some (w.lockRow i k) else none

/-- The flush of a loaded profile. Nothing is sent for one that has not changed; it fails for a
null in the column `name`, and if the row of a changed profile is gone. -/
def flush (w : IcpWorld) (i : ℕ) (loaded : ICPProfile) (op : RowWrite) : Option IcpWorld :=
  let done : IcpTxn := .write loaded op true
  match op with
  | .delete => (w.visit i loaded.id).map (·.goOn i done)
  | .update ⟨.set none, _, _, _, _, _⟩ => some (w.finish i)
  | _ =>
    if op.modified loaded = loaded then some (w.goOn i done)
    else if w.table.get loaded.id = none then some (w.finish i)
    else (w.visit i loaded.id).map (·.goOn i done)

/-- The `UPDATE` of the target; it violates the unique index if another row is active. For a row
that an open transaction makes active it would wait, which only rules runs out. -/
def set (w : IcpWorld) (i target : ℕ) (cleared : List ℕ) : Option IcpWorld :=
  (w.visit i target).map fun w' =>
    if (w.table.get target).isSome ∧ w.table.otherActive target cleared then w'.finish i
    else w'.goOn i (.activate target (.set cleared))

/-- The commit of a write. -/
def commitWrite (w : IcpWorld) (i : ℕ) (loaded : ICPProfile) : RowWrite → IcpWorld
  | .delete =>
    { w.finish i with
      table := w.table.deleteProfile loaded.id
      deletedActive := if (w.table.get loaded.id).any (·.isActive) then
        w.deletedActive ++ [loaded.id] else w.deletedActive }
  | op => { w.finish i with table := w.table.save loaded (op.modified loaded) }

/-- The commit of an activation. -/
def commitActivate (w : IcpWorld) (i target : ℕ) (cleared : List ℕ) : IcpWorld :=
  let table := w.table.activate target cleared
  { w.finish i with
    table := table
    misactivated := if table.activeIds = [target] ∨ table.activeIds = w.table.activeIds then
      w.misactivated else w.misactivated ++ [target] }

/-- A transaction goes on with its next statement. -/
def resume (w : IcpWorld) (i : ℕ) : IcpTxn → IcpEvent → Option IcpWorld
  | _, .abort _ => some (w.finish i)
  | .write loaded op false, .flush _ => w.flush i loaded op
  | .write loaded op true, .commit _ => some (w.commitWrite i loaded op)
  | .activate target .loaded, .lockAll _ =>
    some (w.goOn i (.activate target (.locking w.table.ids)))
  | .activate target (.locking todo), .lock _ k =>
    if k ∈ todo then
      (w.visit i k).map (·.goOn i (.activate target (.locking (todo.erase k))))
    else none
  | .activate target (.locking []), .clearAll _ =>
    some (w.goOn i (.activate target (.clearing w.table.ids [])))
  | .activate target (.clearing todo cleared), .clear _ k =>
    if k ∈ todo then
      (w.visit i k).map (·.goOn i (.activate target (.clearing (todo.erase k) (cleared ++ [k]))))
    else none
  | .activate target (.clearing [] cleared), .set _ => w.set i target cleared
  | .activate target (.set cleared), .commit _ => some (w.commitActivate i target cleared)
  | _, _ => none

/-- A request that is not valid, or is refused, changes nothing. -/
def step (w : IcpWorld) (ev : IcpEvent) : Option IcpWorld :=
  match ev with
  | .create data =>
    match data.validate with
    | .error _ => some w
    | .ok () => some { w with table := w.table.createProfile data }
  | .begin i action =>
    if w.txns i ≠ none then none
    else if ! action.valid then some w
    else match action.accept (w.table.get action.profileId) with
      | .error _ => some w
      | .ok txn => some (w.goOn i txn)
  | .flush i | .lockAll i | .lock i _ | .clearAll i | .clear i _ | .set i | .commit i | .abort i =>
    (w.txns i).bind fun txn => w.resume i txn ev

end IcpWorld

/-! ## What a step does -/

/-- The steps that a world can take. Where a statement has come to a row, `w₁` is the world in
which it has passed over it or locked it. -/
inductive IcpMove (w : IcpWorld) : IcpEvent → IcpWorld → Prop
  | refused {ev : IcpEvent} : IcpMove w ev w
  | created (data : ICPProfileCreate) :
      IcpMove w (.create data) { w with table := w.table.createProfile data }
  | begun (i : ℕ) (action : IcpAction) (txn : IcpTxn) (free : w.txns i = none)
      (accepted : action.accept (w.table.get action.profileId) = .ok txn) :
      IcpMove w (.begin i action) (w.goOn i txn)
  | flushed (i : ℕ) (loaded : ICPProfile) (op : RowWrite) (w₁ : IcpWorld)
      (txn : w.txns i = some (.write loaded op false))
      (visited : w₁ = w ∨ w.visit i loaded.id = some w₁) :
      IcpMove w (.flush i) (w₁.goOn i (.write loaded op true))
  | lockAll (i target : ℕ) (txn : w.txns i = some (.activate target .loaded)) :
      IcpMove w (.lockAll i) (w.goOn i (.activate target (.locking w.table.ids)))
  | lock (i target k : ℕ) (todo : List ℕ) (w₁ : IcpWorld)
      (txn : w.txns i = some (.activate target (.locking todo)))
      (visited : w.visit i k = some w₁) :
      IcpMove w (.lock i k) (w₁.goOn i (.activate target (.locking (todo.erase k))))
  | clearAll (i target : ℕ) (txn : w.txns i = some (.activate target (.locking []))) :
      IcpMove w (.clearAll i) (w.goOn i (.activate target (.clearing w.table.ids [])))
  | clear (i target k : ℕ) (todo cleared : List ℕ) (w₁ : IcpWorld)
      (txn : w.txns i = some (.activate target (.clearing todo cleared)))
      (visited : w.visit i k = some w₁) :
      IcpMove w (.clear i k)
        (w₁.goOn i (.activate target (.clearing (todo.erase k) (cleared ++ [k]))))
  | set (i target : ℕ) (cleared : List ℕ) (w₁ : IcpWorld)
      (txn : w.txns i = some (.activate target (.clearing [] cleared)))
      (visited : w.visit i target = some w₁) :
      IcpMove w (.set i) (w₁.goOn i (.activate target (.set cleared)))
  | wrote (i : ℕ) (loaded : ICPProfile) (op : RowWrite)
      (txn : w.txns i = some (.write loaded op true)) :
      IcpMove w (.commit i) (w.commitWrite i loaded op)
  | activated (i target : ℕ) (cleared : List ℕ)
      (txn : w.txns i = some (.activate target (.set cleared))) :
      IcpMove w (.commit i) (w.commitActivate i target cleared)
  | ended {ev : IcpEvent} (i k : ℕ) (w₁ : IcpWorld) (visited : w₁ = w ∨ w.visit i k = some w₁) :
      IcpMove w ev (w₁.finish i)

/-- The slot of a transaction that moves. -/
def IcpEvent.slot : IcpEvent → Option ℕ
  | .create _ | .begin _ _ => none
  | .flush i | .lockAll i | .lock i _ | .clearAll i | .clear i _ | .set i | .commit i | .abort i =>
    some i

namespace IcpWorld

variable {w w' w₁ : IcpWorld} {ev : IcpEvent} {i k : ℕ}

theorem visit_cases (h : w.visit i k = some w₁) :
    (w.table.get k = none ∧ w₁ = w) ∨
      ((w.table.get k).isSome ∧ (w.locks k = none ∨ w.locks k = some i) ∧ w₁ = w.lockRow i k) := by
  unfold visit at h
  split at h
  · rename_i hget
    exact .inl ⟨hget, (Option.some.inj h).symm⟩
  · rename_i row hget
    split at h
    · rename_i hfree
      exact .inr ⟨by rw [hget]; rfl, hfree, (Option.some.inj h).symm⟩
    · cases h

/-- A visit changes nothing but locks. -/
theorem visit_locks (h : w.visit i k = some w₁) : ∃ locks, w₁ = { w with locks := locks } := by
  rcases visit_cases h with ⟨_, rfl⟩ | ⟨_, _, rfl⟩
  · exact ⟨w₁.locks, rfl⟩
  · exact ⟨_, rfl⟩

/-- A statement on one row. -/
theorem visit_map {f : IcpWorld → IcpWorld} (h : (w.visit i k).map f = some w') :
    ∃ w₁, w.visit i k = some w₁ ∧ w' = f w₁ := by
  obtain ⟨w₁, hvisit, hf⟩ := Option.map_eq_some_iff.mp h
  exact ⟨w₁, hvisit, hf.symm⟩

theorem flush_move {loaded : ICPProfile} {op : RowWrite}
    (htxn : w.txns i = some (.write loaded op false)) (h : w.flush i loaded op = some w') :
    IcpMove w (.flush i) w' := by
  simp only [flush] at h
  split at h
  · obtain ⟨w₁, hvisit, rfl⟩ := visit_map h
    exact .flushed i loaded _ w₁ htxn (.inr hvisit)
  · cases h
    exact .ended i 0 w (.inl rfl)
  · split at h
    · cases h
      exact .flushed i loaded op w htxn (.inl rfl)
    · split at h
      · cases h
        exact .ended i 0 w (.inl rfl)
      · obtain ⟨w₁, hvisit, rfl⟩ := visit_map h
        exact .flushed i loaded op w₁ htxn (.inr hvisit)

theorem resume_move {txn : IcpTxn} (htxn : w.txns i = some txn) (hev : ev.slot = some i)
    (h : w.resume i txn ev = some w') : IcpMove w ev w' := by
  unfold resume at h
  split at h
  all_goals try cases hev
  · cases h
    exact .ended i 0 w (.inl rfl)
  · exact flush_move htxn h
  · cases h
    exact .wrote i _ _ htxn
  · cases h
    exact .lockAll i _ htxn
  · split at h
    · obtain ⟨w₁, hvisit, rfl⟩ := visit_map h
      exact .lock i _ _ _ w₁ htxn hvisit
    · cases h
  · cases h
    exact .clearAll i _ htxn
  · split at h
    · obtain ⟨w₁, hvisit, rfl⟩ := visit_map h
      exact .clear i _ _ _ _ w₁ htxn hvisit
    · cases h
  · obtain ⟨w₁, hvisit, rfl⟩ := visit_map h
    -- the unique index ends the transaction, or the target is set
    split
    · exact .ended i _ w₁ (.inr hvisit)
    · exact .set i _ _ w₁ htxn hvisit
  · cases h
    exact .activated i _ _ htxn
  · cases h

theorem step_move (h : w.step ev = some w') : IcpMove w ev w' := by
  unfold step at h
  split at h
  · split at h
    · cases h
      exact .refused
    · cases h
      exact .created _
  · rename_i i action
    split at h
    · cases h
    · rename_i hfree
      split at h
      · cases h
        exact .refused
      · split at h
        · cases h
          exact .refused
        · rename_i txn haccept
          cases h
          exact .begun i action txn (not_not.mp hfree) haccept
  all_goals
    obtain ⟨txn, htxn, h⟩ := Option.bind_eq_some_iff.mp h
    exact resume_move htxn rfl h

end IcpWorld

/-- What the others see of a step: a new profile, or a commit. -/
theorem IcpMove.effect {w w' : IcpWorld} {ev : IcpEvent} (hm : IcpMove w ev w') :
    (w'.table = w.table ∧ w'.misactivated = w.misactivated ∧
      w'.deletedActive = w.deletedActive) ∨
    (∃ data, w' = { w with table := w.table.createProfile data }) ∨
    (∃ i loaded op, ev = .commit i ∧ w.txns i = some (.write loaded op true) ∧
      w' = w.commitWrite i loaded op) ∨
    ∃ i target cleared, ev = .commit i ∧ w.txns i = some (.activate target (.set cleared)) ∧
      w' = w.commitActivate i target cleared := by
  cases hm with
  | refused => exact .inl ⟨rfl, rfl, rfl⟩
  | created data => exact .inr (.inl ⟨data, rfl⟩)
  | begun => exact .inl ⟨rfl, rfl, rfl⟩
  | flushed i loaded op w₁ txn visited =>
    rcases visited with rfl | hvisit
    · exact .inl ⟨rfl, rfl, rfl⟩
    · obtain ⟨locks, rfl⟩ := IcpWorld.visit_locks hvisit
      exact .inl ⟨rfl, rfl, rfl⟩
  | lockAll => exact .inl ⟨rfl, rfl, rfl⟩
  | lock i target k todo w₁ txn hvisit =>
    obtain ⟨locks, rfl⟩ := IcpWorld.visit_locks hvisit
    exact .inl ⟨rfl, rfl, rfl⟩
  | clearAll => exact .inl ⟨rfl, rfl, rfl⟩
  | clear i target k todo cleared w₁ txn hvisit =>
    obtain ⟨locks, rfl⟩ := IcpWorld.visit_locks hvisit
    exact .inl ⟨rfl, rfl, rfl⟩
  | set i target cleared w₁ txn hvisit =>
    obtain ⟨locks, rfl⟩ := IcpWorld.visit_locks hvisit
    exact .inl ⟨rfl, rfl, rfl⟩
  | wrote i loaded op txn => exact .inr (.inr (.inl ⟨i, loaded, op, rfl, txn, rfl⟩))
  | activated i target cleared txn =>
    exact .inr (.inr (.inr ⟨i, target, cleared, rfl, txn, rfl⟩))
  | ended i k w₁ visited =>
    rcases visited with rfl | hvisit
    · exact .inl ⟨rfl, rfl, rfl⟩
    · obtain ⟨locks, rfl⟩ := IcpWorld.visit_locks hvisit
      exact .inl ⟨rfl, rfl, rfl⟩

end LeadPulse
