import Mathlib.Data.List.Nodup
import Mathlib.Tactic.Common

/-!
# Tables with a primary key

A table is a list of rows with a number `key r` for each row. `get` reads the row of a key,
`modify` updates it in place, `remove` deletes it, and a new row goes to the end. `Keyed` says
that no two rows share a key. Keys may come from a sequence, which is ahead of all rows.
-/

namespace LeadPulse
namespace Table

variable {α : Type*} {key : α → ℕ} {rows : List α} {r : α} {j k : ℕ} {f : α → α}

/-- The row with the given key. -/
def get (key : α → ℕ) (rows : List α) (k : ℕ) : Option α := rows.find? fun r => key r = k

/-- The table with `f` applied to the row of the given key. -/
def modify (key : α → ℕ) (rows : List α) (k : ℕ) (f : α → α) : List α :=
  rows.map fun r => if key r = k then f r else r

/-- The table without the row of the given key. -/
def remove (key : α → ℕ) (rows : List α) (k : ℕ) : List α := rows.filter fun r => key r ≠ k

/-- No two rows share a key. -/
def Keyed (key : α → ℕ) (rows : List α) : Prop := (rows.map key).Nodup

theorem mem_of_get (h : get key rows k = some r) : r ∈ rows := List.mem_of_find?_eq_some h

theorem key_of_get (h : get key rows k = some r) : key r = k := by
  have := List.find?_some h
  simpa using this

/-- An update that keeps the keys moves no row away from its key. -/
theorem key_modify (hf : ∀ r, key (f r) = key r) (r : α) :
    key (if key r = k then f r else r) = key r := by
  split
  · exact hf r
  · rfl

/-- Reading a table after an update of all rows. -/
theorem get_map (hf : ∀ r, key (f r) = key r) :
    get key (rows.map f) j = (get key rows j).map f := by
  unfold get
  rw [List.find?_map]
  congr 2
  funext r
  rw [Function.comp_apply, hf]

theorem get_modify_self (hf : ∀ r, key (f r) = key r) :
    get key (modify key rows k f) k = (get key rows k).map f := by
  unfold modify
  rw [get_map (key_modify hf)]
  cases hr : get key rows k with
  | none => rfl
  | some r =>
    have hkey := key_of_get hr
    rw [Option.map_some, Option.map_some, if_pos hkey]

theorem get_modify_ne (hf : ∀ r, key (f r) = key r) (h : j ≠ k) :
    get key (modify key rows k f) j = get key rows j := by
  unfold modify
  rw [get_map (key_modify hf)]
  cases hr : get key rows j with
  | none => rfl
  | some r =>
    have hkey : key r ≠ k := by
      rw [key_of_get hr]
      exact h
    rw [Option.map_some, if_neg hkey]

/-- Reading any row after an update. -/
theorem get_modify (hf : ∀ r, key (f r) = key r) :
    get key (modify key rows k f) j =
      if j = k then (get key rows j).map f else get key rows j := by
  by_cases h : j = k
  · subst h
    rw [if_pos rfl, get_modify_self hf]
  · rw [if_neg h, get_modify_ne hf h]

/-- A new row does not get in the way of the others. -/
theorem get_append_of_some {s : α} (h : get key rows k = some r) :
    get key (rows ++ [s]) k = some r := by
  unfold get at h ⊢
  rw [List.find?_append, h]
  rfl

/-- Reading a table with a new row. -/
theorem get_append_of_none {s : α} (h : get key rows k = none) :
    get key (rows ++ [s]) k = if key s = k then some s else none := by
  unfold get at h ⊢
  rw [List.find?_append, h]
  by_cases hs : key s = k
  · simp [hs]
  · simp [hs]

/-- Reading any row after a row has been removed. -/
theorem get_remove : get key (remove key rows k) j = if j = k then none else get key rows j := by
  unfold get remove
  rw [List.find?_filter]
  by_cases hj : j = k
  · rw [if_pos hj, List.find?_eq_none]
    intro r _
    simp [hj]
  · rw [if_neg hj]
    congr 1
    funext r
    by_cases hr : key r = j
    · simp [hr, hj]
    · simp [hr]

/-- An update that keeps the columns `g` of each row keeps these columns of the table. -/
theorem keys_map {β : Type*} {g : α → β} (hf : ∀ r, g (f r) = g r) :
    (rows.map f).map g = rows.map g := by
  rw [List.map_map]
  exact List.map_congr_left fun r _ => hf r

theorem keys_modify {β : Type*} {g : α → β} (hf : ∀ r, g (f r) = g r) :
    (modify key rows k f).map g = rows.map g := by
  apply keys_map
  intro r
  split
  · exact hf r
  · rfl

theorem Keyed.of_keys {rows' : List α} (h : Keyed key rows)
    (hkeys : rows'.map key = rows.map key) : Keyed key rows' := by
  unfold Keyed
  rw [hkeys]
  exact h

theorem Keyed.map (h : Keyed key rows) (hf : ∀ r, key (f r) = key r) :
    Keyed key (rows.map f) :=
  h.of_keys (keys_map hf)

theorem Keyed.remove (h : Keyed key rows) : Keyed key (Table.remove key rows k) :=
  h.sublist (List.filter_sublist.map key)

theorem Keyed.modify (h : Keyed key rows) (hf : ∀ r, key (f r) = key r) :
    Keyed key (Table.modify key rows k f) :=
  h.map (key_modify hf)

theorem Keyed.append (h : Keyed key rows) (hr : get key rows (key r) = none) :
    Keyed key (rows ++ [r]) := by
  unfold Keyed at h ⊢
  rw [List.map_append, List.nodup_append]
  refine ⟨h, by simp, fun a ha b hb => ?_⟩
  obtain ⟨s, hs, rfl⟩ := List.mem_map.mp ha
  obtain rfl : b = key r := by simpa using hb
  have := List.find?_eq_none.mp hr s hs
  simpa using this

theorem get_of_mem (h : Keyed key rows) (hr : r ∈ rows) : get key rows (key r) = some r := by
  unfold get
  induction rows with
  | nil => cases hr
  | cons s rows ih =>
    obtain ⟨hnot, hrest⟩ := List.nodup_cons.mp (show (key s :: rows.map key).Nodup from h)
    rcases List.mem_cons.mp hr with rfl | hr
    · simp
    · -- an earlier row with this key would be `r` itself
      have hne : key s ≠ key r := fun he => hnot (he ▸ List.mem_map_of_mem hr)
      simpa [hne] using ih hrest hr

theorem modify_of_none (h : get key rows k = none) : modify key rows k f = rows := by
  refine (List.map_congr_left fun r hr => ?_).trans (List.map_id rows)
  have hne := List.find?_eq_none.mp h r hr
  rw [decide_eq_true_eq] at hne
  exact if_neg hne

/-- Counting after an update of one row. -/
theorem countP_modify (h : Keyed key rows) (hr : get key rows k = some r) (p : α → Bool) :
    (modify key rows k f).countP p + (if p r then 1 else 0) =
      rows.countP p + (if p (f r) then 1 else 0) := by
  induction rows with
  | nil => cases hr
  | cons s rows ih =>
    obtain ⟨hnot, hrest⟩ := List.nodup_cons.mp (show (key s :: rows.map key).Nodup from h)
    unfold modify at ih ⊢
    rw [List.map_cons, List.countP_cons, List.countP_cons]
    by_cases hs : key s = k
    · obtain rfl : s = r := by simpa [get, hs] using hr
      -- no other row has this key
      have hsame := modify_of_none (f := f) (List.find?_eq_none.mpr fun x hx =>
        show ¬ decide (key x = k) = true by
          rw [decide_eq_true_eq]
          exact fun he => hnot (List.mem_map.mpr ⟨x, hx, he.trans hs.symm⟩))
      unfold modify at hsame
      rw [hsame, if_pos hs]
      omega
    · have hr' : get key rows k = some r := by simpa [get, hs] using hr
      have hcount := ih hrest hr'
      rw [if_neg hs]
      omega

/-! ## Keys from a sequence -/

/-- A new row takes the next key of the sequence. -/
theorem lt_append (h : ∀ r ∈ rows, key r < k) (hr : key r = k) :
    ∀ s ∈ rows ++ [r], key s < k + 1 := by
  intro s hs
  rcases List.mem_append.mp hs with hold | hnew
  · exact Nat.lt_succ_of_lt (h s hold)
  · obtain rfl := List.mem_singleton.mp hnew
    rw [hr]
    exact Nat.lt_succ_self k

theorem lt_of_keys {rows' : List α} (h : ∀ r ∈ rows, key r < k)
    (hkeys : rows'.map key = rows.map key) : ∀ s ∈ rows', key s < k := by
  intro s hs
  have hmem : key s ∈ rows.map key := by
    rw [← hkeys]
    exact List.mem_map_of_mem hs
  obtain ⟨r, hr, hkey⟩ := List.mem_map.mp hmem
  rw [← hkey]
  exact h r hr

theorem lt_map (h : ∀ r ∈ rows, key r < k) (hf : ∀ r, key (f r) = key r) :
    ∀ s ∈ rows.map f, key s < k :=
  lt_of_keys h (keys_map hf)

theorem get_of_lt (h : ∀ r ∈ rows, key r < k) : get key rows k = none := by
  refine List.find?_eq_none.mpr fun r hr => ?_
  have := h r hr
  rw [decide_eq_true_eq]
  omega

end Table
end LeadPulse
