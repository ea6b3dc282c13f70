import LeadPulse.Icp.Transactions
import LeadPulse.Lib.Run

/-!
# At most one active profile

`oneActive_always` says that at most one committed profile is active in every state of every run.
The unique index is not needed for it, and never violated (`uniqueIndex_respected`): what carries
it are the row locks of an activation.

Let two activations be through with their `SELECT ... FOR UPDATE`. The one that began it later
saw the target of the other, and has locked it, or found it gone. So at most one of the two still
has a target (`gone_of_ne`), and when it commits, it has cleared all other active rows.
-/

namespace LeadPulse

/-! ## The table -/

namespace IcpTable

variable {table table' : IcpTable} {k target profileId : ℕ} {cleared : List ℕ}
  {f : ICPProfile → ICPProfile} {loaded modified : ICPProfile}

theorem mem_ids (h : table.get k ≠ none) : k ∈ table.ids := by
  obtain ⟨row, hrow⟩ := Option.ne_none_iff_exists'.mp h
  exact List.mem_map.mpr ⟨row, Table.mem_of_get hrow, Table.key_of_get hrow⟩

theorem get_of_mem_ids (h : k ∈ table.ids) : table.get k ≠ none := by
  obtain ⟨row, hrow, rfl⟩ := List.mem_map.mp h
  show Table.get ICPProfile.id table.profiles row.id ≠ none
  rw [Table.get_of_mem table.keyed hrow]
  exact Option.some_ne_none row

theorem activeIds_sublist (table : IcpTable) : table.activeIds.Sublist table.ids :=
  List.filter_sublist.map _

theorem mem_activeIds {row : ICPProfile} (hrow : row ∈ table.profiles)
    (hactive : row.isActive = true) : row.id ∈ table.activeIds :=
  List.mem_map_of_mem (List.mem_filter.mpr ⟨hrow, hactive⟩)

/-- Rows that are gone stay away. -/
structure Evolves (table table' : IcpTable) : Prop where
  nextId_le : table.nextId ≤ table'.nextId
  gone : ∀ k < table.nextId, table.get k = none → table'.get k = none

theorem evolves_createProfile (data : ICPProfileCreate) :
    table.Evolves (table.createProfile data) := by
  refine ⟨Nat.le_succ _, fun k hk hget => ?_⟩
  show Table.get ICPProfile.id (table.profiles ++ [_]) k = none
  rw [Table.get_append_of_none hget]
  exact if_neg (Nat.ne_of_gt hk)

theorem get_mapRows (hf : ∀ row, (f row).id = row.id) :
    (table.mapRows f hf).get k = (table.get k).map f :=
  Table.get_map hf

theorem evolves_mapRows (hf : ∀ row, (f row).id = row.id) :
    table.Evolves (table.mapRows f hf) := by
  refine ⟨le_rfl, fun k _ hget => ?_⟩
  rw [get_mapRows, hget]
  rfl

theorem evolves_deleteProfile : table.Evolves (table.deleteProfile profileId) := by
  refine ⟨le_rfl, fun k _ hget => ?_⟩
  show Table.get ICPProfile.id (Table.remove ICPProfile.id table.profiles profileId) k = none
  rw [Table.get_remove]
  split
  · rfl
  · exact hget

/-- A new profile is not active. -/
theorem activeIds_createProfile (data : ICPProfileCreate) :
    (table.createProfile data).activeIds = table.activeIds := by
  show ((table.profiles ++ [table.newProfile data]).filter (·.isActive)).map (·.id) = _
  rw [List.filter_append]
  show (List.filter _ table.profiles ++ []).map _ = _
  rw [List.append_nil]
  rfl

/-- An `UPDATE` that makes no row active. -/
theorem activeIds_mapRows (hf : ∀ row, (f row).id = row.id)
    (h : ∀ row ∈ table.profiles, (f row).isActive = true → row.isActive = true) :
    (table.mapRows f hf).activeIds.Sublist table.activeIds := by
  show ((table.profiles.map f).filter (·.isActive)).map (·.id) |>.Sublist
    ((table.profiles.filter (·.isActive)).map (·.id))
  rw [List.filter_map, List.map_map]
  have hid : (fun row : ICPProfile => row.id) ∘ f = fun row => row.id := funext hf
  rw [hid]
  -- the rows that are active afterwards are among those that were active
  have hfilter : table.profiles.filter ((fun row => row.isActive) ∘ f) =
      (table.profiles.filter (·.isActive)).filter ((fun row => row.isActive) ∘ f) := by
    rw [List.filter_filter]
    refine List.filter_congr fun row hrow => ?_
    have hactive := h row hrow
    rw [Function.comp_apply]
    cases hnew : (f row).isActive with
    | false => rfl
    | true => rw [hactive hnew]; rfl
  rw [hfilter]
  exact List.filter_sublist.map _

theorem activeIds_deleteProfile (table : IcpTable) (profileId : ℕ) :
    (table.deleteProfile profileId).activeIds.Sublist table.activeIds :=
  (List.filter_sublist.filter _).map _

theorem isActive_flush {row : ICPProfile} (h : modified.isActive = loaded.isActive) :
    (loaded.flush modified row).isActive = row.isActive :=
  if_pos h

theorem isActive_patched (data : ICPProfileUpdate) (row : ICPProfile) :
    (patched data row).isActive = row.isActive := by
  unfold patched
  split <;> rfl

/-- A write of a loaded profile makes no row active. -/
theorem activeIds_save (op : RowWrite) :
    (table.save loaded (op.modified loaded)).activeIds.Sublist table.activeIds := by
  refine activeIds_mapRows _ fun row _ hactive => ?_
  split at hactive
  · cases op with
    | update data =>
      rw [← hactive]
      exact (isActive_flush (isActive_patched data loaded)).symm
    | delete =>
      rw [← hactive]
      exact (isActive_flush rfl).symm
    | deactivate =>
      by_cases hloaded : false = loaded.isActive
      · rw [← hactive]
        exact (isActive_flush hloaded).symm
      · have hoff : (loaded.flush (RowWrite.deactivate.modified loaded) row).isActive = false :=
          if_neg hloaded
        rw [hoff] at hactive
        cases hactive
  · exact hactive

/-! ### Activation -/

/-- No row is made active if the target is gone. -/
theorem activeIds_activate_gone (h : table.get target = none) :
    (table.activate target cleared).activeIds.Sublist table.activeIds := by
  refine activeIds_mapRows _ fun row hrow hactive => ?_
  have hne : row.id ≠ target := by
    intro he
    have := Table.get_of_mem table.keyed hrow
    rw [he] at this
    rw [show Table.get ICPProfile.id table.profiles target = none from h] at this
    cases this
  unfold ICPProfile.switch at hactive
  rw [if_neg hne] at hactive
  split at hactive
  · cases hactive
  · exact hactive

/-- The target alone is active if all other active rows have been cleared. -/
theorem activeIds_activate (hget : table.get target ≠ none)
    (hcleared : ∀ k ∈ table.activeIds, k ∈ cleared) :
    (table.activate target cleared).activeIds = [target] := by
  have hnodup : (table.activate target cleared).activeIds.Nodup :=
    (table.activate target cleared).keyed.sublist (activeIds_sublist _)
  have hmem : target ∈ (table.activate target cleared).activeIds := by
    obtain ⟨row, hrow⟩ := Option.ne_none_iff_exists'.mp hget
    have hid : row.id = target := Table.key_of_get hrow
    refine List.mem_map.mpr ⟨row.switch target cleared, List.mem_filter.mpr ⟨?_, ?_⟩, ?_⟩
    · exact List.mem_map_of_mem (Table.mem_of_get hrow)
    · unfold ICPProfile.switch
      rw [if_pos hid]
    · rw [ICPProfile.switch_id, hid]
  have hall : ∀ k ∈ (table.activate target cleared).activeIds, k = target := by
    intro k hk
    obtain ⟨row', hrow', rfl⟩ := List.mem_map.mp hk
    obtain ⟨hrow', hactive⟩ := List.mem_filter.mp hrow'
    obtain ⟨row, hrow, rfl⟩ := List.mem_map.mp hrow'
    rw [ICPProfile.switch_id]
    by_contra hne
    unfold ICPProfile.switch at hactive
    rw [if_neg hne] at hactive
    split at hactive
    · cases hactive
    · rename_i hnot
      exact hnot (hcleared row.id (mem_activeIds hrow hactive))
  have hperm : (table.activate target cleared).activeIds.Perm [target] := by
    rw [List.perm_ext_iff_of_nodup hnodup (List.nodup_singleton target)]
    intro k
    rw [List.mem_singleton]
    exact ⟨hall k, fun hk => hk ▸ hmem⟩
  exact List.perm_singleton.mp hperm

end IcpTable

/-! ## The invariant -/

namespace ActivateStage

/-- The `SELECT ... FOR UPDATE` has begun. -/
def begun : ActivateStage → Bool
  | loaded => false
  | _ => true

/-- The rows that have still to be locked. -/
def awaited : ActivateStage → List ℕ
  | locking todo => todo
  | _ => []

/-- The rows that will have been cleared when the target is set. -/
def clears : ActivateStage → Option (List ℕ)
  | clearing todo cleared => some (todo ++ cleared)
  | set cleared => some cleared
  | _ => none

end ActivateStage

namespace IcpWorld

/-- The activation in slot `i` has locked the row `k`, or found it gone, or is still to lock it. -/
def Reaches (w : IcpWorld) (i : ℕ) (stage : ActivateStage) (k : ℕ) : Prop :=
  w.table.get k = none ∨ k ∈ stage.awaited ∨ w.locks k = some i

/-- All active rows will have been cleared, unless the target is gone. -/
def Clears (w : IcpWorld) (target : ℕ) (stage : ActivateStage) : Prop :=
  ∀ ids, stage.clears = some ids → w.table.get target = none ∨ ∀ k ∈ w.table.activeIds, k ∈ ids

/-- What the transactions know of each other. By `reached`, for one activation twice, it
reaches its own target. -/
structure Inv (w : IcpWorld) : Prop where
  target_lt : ∀ i target stage, w.txns i = some (.activate target stage) →
    target < w.table.nextId
  reached : ∀ i j target target' stage stage', w.txns i = some (.activate target stage) →
    w.txns j = some (.activate target' stage') → stage.begun = true → stage'.begun = true →
    w.Reaches i stage target' ∨ w.Reaches j stage' target
  clears : ∀ i target stage, w.txns i = some (.activate target stage) → w.Clears target stage

variable {w w' w₁ : IcpWorld} {ev : IcpEvent} {i j k target target' : ℕ}
  {stage stage' : ActivateStage}

theorem inv_init (table : IcpTable) : (init table).Inv where
  target_lt := by
    intro i target stage h
    cases h
  reached := by
    intro i j target target' stage stage' h
    cases h
  clears := by
    intro i target stage h
    cases h

/-- Of two activations that are through with their locks, at most one has a target. -/
theorem Inv.gone_of_ne (h : w.Inv) (hij : i ≠ j) (hi : w.txns i = some (.activate target stage))
    (hj : w.txns j = some (.activate target' stage')) (hstage : stage.clears ≠ none)
    (hstage' : stage'.clears ≠ none) :
    w.table.get target = none ∨ w.table.get target' = none := by
  have reaches : ∀ {i k stage}, stage.clears ≠ none → w.Reaches i stage k →
      w.table.get k = none ∨ w.locks k = some i := by
    intro i k stage hs hreach
    rcases hreach with hgone | hawaited | hlock
    · exact .inl hgone
    · cases stage <;> first | exact absurd rfl hs | cases hawaited
    · exact .inr hlock
  have begun : ∀ {stage : ActivateStage}, stage.clears ≠ none → stage.begun = true := by
    intro stage hs
    cases stage with
    | loaded => exact absurd rfl hs
    | _ => rfl
  have own : ∀ {i target stage}, w.txns i = some (.activate target stage) → stage.clears ≠ none →
      w.table.get target = none ∨ w.locks target = some i := by
    intro i target stage hi hs
    exact reaches hs ((h.reached i i _ _ _ _ hi hi (begun hs) (begun hs)).elim (·) (·))
  by_contra hno
  rw [not_or] at hno
  obtain ⟨hget, hget'⟩ := hno
  have hlock := (own hi hstage).resolve_left hget
  have hlock' := (own hj hstage').resolve_left hget'
  -- one of them has locked the target of the other, who has locked it as well
  rcases h.reached i j _ _ _ _ hi hj (begun hstage) (begun hstage') with hreach | hreach
  · have := (reaches hstage hreach).resolve_left hget'
    rw [this] at hlock'
    exact hij (Option.some.inj hlock')
  · have := (reaches hstage' hreach).resolve_left hget
    rw [this] at hlock
    exact hij (Option.some.inj hlock).symm

/-! ## Steps keep the invariant -/

/-- How an activation of `w'` has come from `w`: it has just begun, or it reaches everything, or
whatever it reached before. -/
def Follows (w w' : IcpWorld) (j target : ℕ) (stage' : ActivateStage) : Prop :=
  (stage' = .loaded ∧ target < w'.table.nextId) ∨
    ∃ stage, w.txns j = some (.activate target stage) ∧ w'.Clears target stage' ∧
      (stage'.begun = true → (∀ k < w.table.nextId, w'.Reaches j stage' k) ∨
        stage.begun = true ∧ ∀ k < w.table.nextId, w.Reaches j stage k → w'.Reaches j stage' k)

theorem Inv.follows (h : w.Inv) (hle : w.table.nextId ≤ w'.table.nextId)
    (hfollows : ∀ j target stage', w'.txns j = some (.activate target stage') →
      w.Follows w' j target stage') : w'.Inv where
  target_lt := by
    intro j target stage' hj
    rcases hfollows j target stage' hj with ⟨_, hlt⟩ | ⟨stage, hj, _⟩
    · exact hlt
    · exact Nat.lt_of_lt_of_le (h.target_lt j target stage hj) hle
  reached := by
    intro i j target target' stage stage' hi hj hs hs'
    rcases hfollows i target stage hi with ⟨rfl, _⟩ | ⟨old, hi, _, hold⟩
    · cases hs
    rcases hfollows j target' stage' hj with ⟨rfl, _⟩ | ⟨old', hj, _, hold'⟩
    · cases hs'
    have hlt := h.target_lt i target old hi
    have hlt' := h.target_lt j target' old' hj
    rcases hold hs with hall | ⟨hbegun, hkeep⟩
    · exact .inl (hall target' hlt')
    rcases hold' hs' with hall | ⟨hbegun', hkeep'⟩
    · exact .inr (hall target hlt)
    exact (h.reached i j target target' old old' hi hj hbegun hbegun').imp (hkeep target' hlt')
      (hkeep' target hlt)
  clears := by
    intro j target stage' hj
    rcases hfollows j target stage' hj with ⟨rfl, _⟩ | ⟨_, _, hclears, _⟩
    · intro ids hids
      cases hids
    · exact hclears

/-- An activation that stays where it is. -/
theorem Follows.stay (hj : w.txns j = some (.activate target stage))
    (hreach : ∀ k < w.table.nextId, w.Reaches j stage k → w'.Reaches j stage k)
    (hclears : w'.Clears target stage) : w.Follows w' j target stage :=
  .inr ⟨stage, hj, hclears, fun hbegun => .inr ⟨hbegun, hreach⟩⟩

/-- A row gets locked by a transaction, unless another one has it. -/
theorem Inv.lockRow (h : w.Inv) (hfree : w.locks k = none ∨ w.locks k = some i) :
    (w.lockRow i k).Inv := by
  refine h.follows le_rfl fun j target stage hj => Follows.stay hj (fun x _ hx => ?_)
    (h.clears j target stage hj)
  refine hx.imp_right (Or.imp_right fun hlock => ?_)
  show Function.update w.locks k (some i) x = some j
  by_cases hxk : x = k
  · subst hxk
    rw [Function.update_self]
    rcases hfree with hfree | hfree
    · rw [hfree] at hlock
      cases hlock
    · rw [← hfree]
      exact hlock
  · rw [Function.update_of_ne hxk]
    exact hlock

/-- A visit leaves the transactions, and reaches its row. -/
theorem Inv.visit (h : w.Inv) (hvisit : w.visit i k = some w₁) :
    w₁.Inv ∧ w₁.txns = w.txns ∧ (w₁.table.get k = none ∨ w₁.locks k = some i) := by
  rcases visit_cases hvisit with ⟨hgone, rfl⟩ | ⟨_, hfree, rfl⟩
  · exact ⟨h, rfl, .inl hgone⟩
  · exact ⟨h.lockRow hfree, rfl, .inr (Function.update_self ..)⟩

theorem Inv.goOn {txn : IcpTxn} (h : w.Inv)
    (hfollows : ∀ target stage, txn = .activate target stage →
      w.Follows (w.goOn i txn) i target stage) : (w.goOn i txn).Inv := by
  refine h.follows le_rfl fun j target stage hj => ?_
  by_cases hji : j = i
  · subst hji
    have hself : (w.goOn j txn).txns j = some txn := Function.update_self ..
    rw [hself] at hj
    exact hfollows target stage (Option.some.inj hj)
  · have hother : (w.goOn i txn).txns j = w.txns j := Function.update_of_ne hji ..
    rw [hother] at hj
    exact Follows.stay hj (fun _ _ hk => hk) (h.clears j target stage hj)

theorem Inv.finish (h : w.Inv) (i : ℕ) : (w.finish i).Inv := by
  refine h.follows le_rfl fun j target stage hj => ?_
  by_cases hji : j = i
  · subst hji
    have hself : (w.finish j).txns j = none := Function.update_self ..
    rw [hself] at hj
    cases hj
  · have hother : (w.finish i).txns j = w.txns j := Function.update_of_ne hji ..
    rw [hother] at hj
    refine Follows.stay hj (fun k _ hk => hk.imp_right (Or.imp_right fun hlock => ?_))
      (h.clears j target stage hj)
    -- the locks of the others are not released
    show (if w.locks k = some i then none else w.locks k) = some j
    have hne : w.locks k ≠ some i := by
      rw [hlock]
      exact fun he => hji (Option.some.inj he)
    rw [if_neg hne]
    exact hlock

/-- A commit: either no row becomes active, or no other activation that clears has a target. -/
theorem Inv.setTable {table : IcpTable} (h : w.Inv) (hev : w.table.Evolves table)
    (hactive : table.activeIds.Sublist w.table.activeIds ∨
      ∀ i target stage, w.txns i = some (.activate target stage) → stage.clears ≠ none →
        w.table.get target = none) : Inv { w with table := table } := by
  refine h.follows hev.nextId_le fun j target stage hj => ?_
  have hlt := h.target_lt j target stage hj
  refine Follows.stay hj (fun k hk hreach => hreach.imp_left (hev.gone k hk)) fun ids hids => ?_
  rcases hactive with hsub | hgone
  · exact (h.clears j target stage hj ids hids).imp (hev.gone target hlt)
      fun hall k hk => hall k (hsub.subset hk)
  · have hne : stage.clears ≠ none := by
      rw [hids]
      exact Option.some_ne_none ids
    exact .inl (hev.gone target hlt (hgone j target stage hj hne))

theorem accept_activate {action : IcpAction} {profile : Option ICPProfile}
    (h : action.accept profile = .ok (.activate target stage)) :
    stage = .loaded ∧ ∃ row, profile = some row ∧ row.id = target := by
  cases profile with
  | none => cases action <;> cases h
  | some row =>
    cases action with
    | activate profileId =>
      cases h
      exact ⟨rfl, row, rfl, rfl⟩
    | update profileId data => cases h
    | deactivate profileId =>
      simp only [IcpAction.accept] at h
      split at h <;> cases h
    | delete profileId =>
      simp only [IcpAction.accept] at h
      split at h <;> cases h

/-- The commit of a write. -/
theorem Inv.commitWrite (h : w.Inv) (i : ℕ) (loaded : ICPProfile) (op : RowWrite) :
    (w.commitWrite i loaded op).Inv := by
  have hfinish := h.finish i
  cases op with
  | delete =>
    have hset := hfinish.setTable IcpTable.evolves_deleteProfile
      (.inl (IcpTable.activeIds_deleteProfile w.table loaded.id))
    exact ⟨hset.target_lt, hset.reached, hset.clears⟩
  | update data =>
    exact hfinish.setTable (IcpTable.evolves_mapRows _)
      (.inl (IcpTable.activeIds_save (.update data)))
  | deactivate =>
    exact hfinish.setTable (IcpTable.evolves_mapRows _) (.inl (IcpTable.activeIds_save .deactivate))

/-- The commit of an activation. -/
theorem Inv.commitActivate {cleared : List ℕ} (h : w.Inv)
    (hi : w.txns i = some (.activate target (.set cleared))) :
    (w.commitActivate i target cleared).Inv := by
  have hset : Inv { w.finish i with table := w.table.activate target cleared } := by
    refine (h.finish i).setTable (IcpTable.evolves_mapRows _) ?_
    by_cases hget : w.table.get target = none
    · exact .inl (IcpTable.activeIds_activate_gone hget)
    · right
      intro j target' stage' hj hstage'
      have hji : j ≠ i := by
        rintro rfl
        have hself : (w.finish j).txns j = none := Function.update_self ..
        rw [hself] at hj
        cases hj
      have hother : (w.finish i).txns j = w.txns j := Function.update_of_ne hji ..
      rw [hother] at hj
      exact (h.gone_of_ne hji hj hi hstage' (Option.some_ne_none cleared)).resolve_right hget
  exact ⟨hset.target_lt, hset.reached, hset.clears⟩

/-! ### The statements of an activation -/

theorem Inv.advance (h : w.Inv) (hold : w.txns i = some (.activate target stage))
    (hclears : w.Clears target stage')
    (hreach : (∀ k < w.table.nextId, w.Reaches i stage' k) ∨
      stage.begun = true ∧ ∀ k, w.Reaches i stage k → w.Reaches i stage' k) :
    (w.goOn i (.activate target stage')).Inv := by
  refine h.goOn fun target stage htxn => ?_
  cases htxn
  exact .inr ⟨_, hold, hclears, fun _ => hreach.imp_right (And.imp_right fun hk k _ => hk k)⟩

/-- `SELECT ... FOR UPDATE` begins: it is to lock every row that is there. -/
theorem Inv.lockAll (h : w.Inv) (hi : w.txns i = some (.activate target .loaded)) :
    (w.goOn i (.activate target (.locking w.table.ids))).Inv := by
  refine h.advance hi (fun ids hids => nomatch hids) (.inl fun k _ => ?_)
  by_cases hget : w.table.get k = none
  · exact .inl hget
  · exact .inr (.inl (IcpTable.mem_ids hget))

theorem Inv.lock {todo : List ℕ} (h : w.Inv)
    (hi : w.txns i = some (.activate target (.locking todo)))
    (hk : w.table.get k = none ∨ w.locks k = some i) :
    (w.goOn i (.activate target (.locking (todo.erase k)))).Inv := by
  refine h.advance hi (fun ids hids => nomatch hids) (.inr ⟨rfl, fun x hx => ?_⟩)
  by_cases hxk : x = k
  · subst hxk
    exact hk.imp_right .inr
  · exact hx.imp_right (Or.imp_left fun hmem => (List.mem_erase_of_ne hxk).mpr hmem)

/-- The `UPDATE` of all rows begins: it is to clear every row that is there. -/
theorem Inv.clearAll (h : w.Inv) (hi : w.txns i = some (.activate target (.locking []))) :
    (w.goOn i (.activate target (.clearing w.table.ids []))).Inv := by
  refine h.advance hi ?_ (.inr ⟨rfl, fun _ hx => hx⟩)
  intro ids hids
  cases hids
  rw [List.append_nil]
  exact .inr fun k hk => (IcpTable.activeIds_sublist w.table).subset hk

/-- A row moves from those to be cleared to those that are. -/
theorem Inv.clear {todo cleared : List ℕ} (h : w.Inv)
    (hi : w.txns i = some (.activate target (.clearing todo cleared))) :
    (w.goOn i (.activate target (.clearing (todo.erase k) (cleared ++ [k])))).Inv := by
  refine h.advance hi ?_ (.inr ⟨rfl, fun _ hx => hx⟩)
  intro ids hids
  cases hids
  refine (h.clears i target _ hi _ rfl).imp_right fun hall x hx => ?_
  by_cases hxk : x = k
  · simp [hxk]
  · have := hall x hx
    simpa [List.mem_erase_of_ne hxk, hxk] using this

theorem Inv.set {cleared : List ℕ} (h : w.Inv)
    (hi : w.txns i = some (.activate target (.clearing [] cleared))) :
    (w.goOn i (.activate target (.set cleared))).Inv := by
  refine h.advance hi ?_ (.inr ⟨rfl, fun _ hx => hx⟩)
  intro ids hids
  cases hids
  exact h.clears i target _ hi _ rfl

/-- What any step keeps. -/
theorem Inv.move (h : w.Inv) (hm : IcpMove w ev w') : w'.Inv := by
  cases hm with
  | refused => exact h
  | created data =>
    refine h.setTable (IcpTable.evolves_createProfile data) (.inl ?_)
    rw [IcpTable.activeIds_createProfile]
  | begun i action txn free accepted =>
    refine h.goOn fun target stage htxn => ?_
    rw [htxn] at accepted
    obtain ⟨hstage, row, hrow, hid⟩ := accept_activate accepted
    refine .inl ⟨hstage, ?_⟩
    rw [← hid]
    exact w.table.id_lt row (Table.mem_of_get hrow)
  | flushed i loaded op w₁ txn visited =>
    have h₁ : w₁.Inv := by
      rcases visited with rfl | hvisit
      · exact h
      · exact (h.visit hvisit).1
    exact h₁.goOn fun target stage htxn => nomatch htxn
  | lockAll i target txn => exact h.lockAll txn
  | lock i target k todo w₁ txn visited =>
    obtain ⟨h₁, htxns, hk⟩ := h.visit visited
    exact h₁.lock (htxns ▸ txn) hk
  | clearAll i target txn => exact h.clearAll txn
  | clear i target k todo cleared w₁ txn visited =>
    obtain ⟨h₁, htxns, _⟩ := h.visit visited
    exact h₁.clear (htxns ▸ txn)
  | set i target cleared w₁ txn visited =>
    obtain ⟨h₁, htxns, _⟩ := h.visit visited
    exact h₁.set (htxns ▸ txn)
  | wrote i loaded op txn => exact h.commitWrite i loaded op
  | activated i target cleared txn => exact h.commitActivate txn
  | ended i k w₁ visited =>
    rcases visited with rfl | hvisit
    · exact h.finish i
    · exact (h.visit hvisit).1.finish i

end IcpWorld

/-! ## At most one active profile -/

def OneActive (table : IcpTable) : Prop := table.activeIds.length ≤ 1

instance (table : IcpTable) : Decidable (OneActive table) := inferInstanceAs (Decidable (_ ≤ _))

namespace IcpWorld

variable {w w' : IcpWorld} {ev : IcpEvent}

theorem oneActive_commitWrite (h : OneActive w.table) (i : ℕ) (loaded : ICPProfile)
    (op : RowWrite) : OneActive (w.commitWrite i loaded op).table := by
  cases op with
  | delete => exact (IcpTable.activeIds_deleteProfile w.table loaded.id).length_le.trans h
  | update data => exact (IcpTable.activeIds_save (.update data)).length_le.trans h
  | deactivate => exact (IcpTable.activeIds_save .deactivate).length_le.trans h

/-- The commit of an activation: its target is gone, or all other active rows are cleared. -/
theorem oneActive_commitActivate {i target : ℕ} {cleared : List ℕ} (hinv : w.Inv)
    (h : OneActive w.table) (hi : w.txns i = some (.activate target (.set cleared))) :
    OneActive (w.commitActivate i target cleared).table := by
  by_cases hget : w.table.get target = none
  · exact (IcpTable.activeIds_activate_gone hget).length_le.trans h
  · have hcleared := (hinv.clears i target _ hi cleared rfl).resolve_left hget
    show (w.table.activate target cleared).activeIds.length ≤ 1
    rw [IcpTable.activeIds_activate hget hcleared]
    exact le_rfl

theorem oneActive_move (hinv : w.Inv) (h : OneActive w.table) (hm : IcpMove w ev w') :
    OneActive w'.table := by
  rcases hm.effect with ⟨htable, _⟩ | ⟨data, rfl⟩ | ⟨i, loaded, op, _, _, rfl⟩ |
    ⟨i, target, cleared, _, hi, rfl⟩
  · rw [htable]
    exact h
  · show (w.table.createProfile data).activeIds.length ≤ 1
    rw [IcpTable.activeIds_createProfile]
    exact h
  · exact oneActive_commitWrite h i loaded op
  · exact oneActive_commitActivate hinv h hi

end IcpWorld

theorem IcpTable.otherActive_eq_false {table : IcpTable} {cleared : List ℕ} (target : ℕ)
    (h : ∀ k ∈ table.activeIds, k ∈ cleared) : table.otherActive target cleared = false := by
  refine List.any_eq_false.mpr fun row hrow => ?_
  rw [decide_eq_true_eq]
  rintro ⟨hactive, _, hnot⟩
  exact hnot (h row.id (IcpTable.mem_activeIds hrow hactive))

/-- The unique index stops no activation: what it would object to has been cleared. -/
theorem uniqueIndex_respected (table : IcpTable) (events : List IcpEvent) :
    Run.AllStates IcpWorld.step (fun w => ∀ i target cleared,
      w.txns i = some (.activate target (.clearing [] cleared)) → w.table.get target ≠ none →
        w.table.otherActive target cleared = false) (IcpWorld.init table) events := by
  have hinv : Run.AllStates IcpWorld.step IcpWorld.Inv (IcpWorld.init table) events :=
    Run.AllStates.of_step (fun w ev w' hw hs => hw.move (IcpWorld.step_move hs))
      (IcpWorld.inv_init table) events
  refine hinv.mono fun w hw i target cleared hi hget => ?_
  have hcleared := (hw.clears i target _ hi _ rfl).resolve_left hget
  exact IcpTable.otherActive_eq_false target hcleared

/-- At most one committed profile is active in every state of every run. -/
theorem oneActive_always (table : IcpTable) (h : OneActive table) (events : List IcpEvent) :
    Run.AllStates IcpWorld.step (fun w => OneActive w.table) (IcpWorld.init table) events := by
  have hinv : Run.AllStates IcpWorld.step (fun w => w.Inv ∧ OneActive w.table)
      (IcpWorld.init table) events :=
    Run.AllStates.of_step (fun w ev w' hw hs =>
      have hm := IcpWorld.step_move hs
      ⟨hw.1.move hm, IcpWorld.oneActive_move hw.1 hw.2 hm⟩) ⟨IcpWorld.inv_init table, h⟩ events
  exact hinv.mono fun w hw => hw.2

/-- Two activations at a time, of which the second waits for the locks of the first. -/
theorem oneActive_twoActivations :
    Run.AllStates IcpWorld.step (fun w => OneActive w.table) (IcpWorld.init IcpTable.init)
      [.create { name := "Retail", industryFilter := some ["Retail"] },
       .create { name := "Cloud", techFilter := some ["AWS"] },
       .begin 0 (.activate 1), .begin 1 (.activate 2), .lockAll 0, .lock 0 1, .lockAll 1,
       .lock 0 2, .clearAll 0, .clear 0 1, .clear 0 2, .set 0, .commit 0,
       .lock 1 1, .lock 1 2, .clearAll 1, .clear 1 1, .clear 1 2, .set 1, .commit 1] :=
  oneActive_always IcpTable.init (by decide) _

end LeadPulse
