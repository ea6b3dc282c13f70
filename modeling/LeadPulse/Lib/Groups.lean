import Mathlib.Data.List.Nodup
import Mathlib.Algebra.BigOperators.Group.List.Basic
import Mathlib.Algebra.GroupWithZero.Nat
import Mathlib.Tactic.Common

/-!
# Grouping rows by a key

`groupBy key rows` collects the rows of each key, the keys in the order in which they first
occur, the rows of a key in the order of the table. `IsGrouping` says what the result is, row by
row (`mem_rows`, `rows_eq`) and as a whole (`heads_sublist`); `perm_flatMap` says that no row is
lost or counted twice, and `find_groupBy`, `lookup_tally` read one group.
-/

namespace LeadPulse
namespace Groups

variable {α κ : Type*} [DecidableEq κ] {key : α → κ} {rows : List α} {r : α} {k : κ}
  {groups : List (κ × List α)} {g : κ × List α}

/-- A row goes to the group of the key, or starts one. -/
def push (k : κ) (r : α) : List (κ × List α) → List (κ × List α)
  | [] => [(k, [r])]
  | g :: groups => if g.1 = k then (g.1, g.2 ++ [r]) :: groups else g :: push k r groups

def groupBy (key : α → κ) (rows : List α) : List (κ × List α) :=
  rows.foldl (fun groups r => push (key r) r groups) []

/-- How many rows there are for each key. -/
def tally (key : α → κ) (rows : List α) : List (κ × ℕ) :=
  (groupBy key rows).map fun g => (g.1, g.2.length)

/-! ## One row -/

theorem push_of_not_mem (h : k ∉ groups.map Prod.fst) :
    push k r groups = groups ++ [(k, [r])] := by
  induction groups with
  | nil => rfl
  | cons g groups ih =>
    rw [List.map_cons, List.mem_cons, not_or] at h
    rw [push, if_neg (Ne.symm h.1), ih h.2, List.cons_append]

theorem push_of_mem (h : k ∈ groups.map Prod.fst) :
    ∃ before rs after, groups = before ++ (k, rs) :: after ∧ k ∉ before.map Prod.fst ∧
      push k r groups = before ++ (k, rs ++ [r]) :: after := by
  induction groups with
  | nil => cases h
  | cons g groups ih =>
    by_cases hg : g.1 = k
    · refine ⟨[], g.2, groups, ?_, List.not_mem_nil, ?_⟩
      · rw [← hg, List.nil_append]
      · rw [push, if_pos hg, hg, List.nil_append]
    · have hrest : k ∈ groups.map Prod.fst := by
        rw [List.map_cons, List.mem_cons] at h
        exact h.resolve_left (Ne.symm hg)
      obtain ⟨before, rs, after, hgroups, hnot, hpush⟩ := ih hrest
      refine ⟨g :: before, rs, after, ?_, ?_, ?_⟩
      · rw [hgroups, List.cons_append]
      · rw [List.map_cons, List.mem_cons, not_or]
        exact ⟨Ne.symm hg, hnot⟩
      · rw [push, if_neg hg, hpush, List.cons_append]

/-! ## What a grouping is -/

structure IsGrouping (key : α → κ) (groups : List (κ × List α)) (rows : List α) : Prop where
  nodup : (groups.map Prod.fst).Nodup
  rows_eq : ∀ g ∈ groups, g.2 = rows.filter fun r => key r = g.1
  ne_nil : ∀ g ∈ groups, g.2 ≠ []
  mem_keys : ∀ r ∈ rows, key r ∈ groups.map Prod.fst
  /-- The groups come in the order of their first rows. -/
  heads_sublist : (groups.filterMap fun g => g.2.head?).Sublist rows

theorem isGrouping_nil : IsGrouping key [] [] where
  nodup := List.nodup_nil
  rows_eq := fun _ h => nomatch h
  ne_nil := fun _ h => nomatch h
  mem_keys := fun _ h => nomatch h
  heads_sublist := List.Sublist.refl []

/-- The rows of a group after a row of another key. -/
theorem filter_concat_ne (h : key r ≠ k) :
    (rows ++ [r]).filter (fun r => key r = k) = rows.filter fun r => key r = k := by
  rw [List.filter_append, List.filter_singleton, decide_eq_false h]
  exact List.append_nil _

theorem filter_concat_eq (h : key r = k) :
    (rows ++ [r]).filter (fun r => key r = k) = rows.filter (fun r => key r = k) ++ [r] := by
  rw [List.filter_append, List.filter_singleton, decide_eq_true h]
  rfl

theorem IsGrouping.push (h : IsGrouping key groups rows) (r : α) :
    IsGrouping key (push (key r) r groups) (rows ++ [r]) := by
  by_cases hmem : key r ∈ groups.map Prod.fst
  · obtain ⟨before, rs, after, hgroups, -, hpush⟩ := push_of_mem (r := r) hmem
    rw [hpush]
    subst hgroups
    have hkeys : (before ++ (key r, rs ++ [r]) :: after).map Prod.fst =
        (before ++ (key r, rs) :: after).map Prod.fst := by
      rw [List.map_append, List.map_append, List.map_cons, List.map_cons]
    have hrs := h.rows_eq (key r, rs) (List.mem_append_right _ List.mem_cons_self)
    have hne := h.ne_nil (key r, rs) (List.mem_append_right _ List.mem_cons_self)
    -- the other groups have other keys
    have hother : ∀ g ∈ before ++ after, g.1 ≠ key r := by
      intro g hg he
      have hnodup := h.nodup
      rw [List.map_append, List.map_cons, List.nodup_middle, List.nodup_cons,
        ← List.map_append] at hnodup
      exact hnodup.1 (List.mem_map.mpr ⟨g, hg, he⟩)
    have hcases : ∀ g ∈ before ++ (key r, rs ++ [r]) :: after,
        g = (key r, rs ++ [r]) ∨ g ∈ before ++ after := by
      intro g hg
      rw [List.mem_append, List.mem_cons] at hg
      rw [List.mem_append]
      tauto
    have hold : ∀ g ∈ before ++ after, g ∈ before ++ (key r, rs) :: after := by
      intro g hg
      rw [List.mem_append] at hg
      rw [List.mem_append, List.mem_cons]
      tauto
    refine ⟨?_, ?_, ?_, ?_, ?_⟩
    · rw [hkeys]
      exact h.nodup
    · intro g hg
      rcases hcases g hg with rfl | hg
      · rw [filter_concat_eq rfl, ← hrs]
      · rw [filter_concat_ne (Ne.symm (hother g hg))]
        exact h.rows_eq g (hold g hg)
    · intro g hg
      rcases hcases g hg with rfl | hg
      · exact List.append_ne_nil_of_right_ne_nil _ (List.cons_ne_nil _ _)
      · exact h.ne_nil g (hold g hg)
    · intro x hx
      rw [hkeys]
      rcases List.mem_append.mp hx with hx | hx
      · exact h.mem_keys x hx
      · rw [List.mem_singleton.mp hx]
        exact hmem
    · have hheads : (before ++ (key r, rs ++ [r]) :: after).filterMap (fun g => g.2.head?) =
          (before ++ (key r, rs) :: after).filterMap fun g => g.2.head? := by
        obtain ⟨x, xs, rfl⟩ := List.exists_cons_of_ne_nil hne
        rw [List.filterMap_append, List.filterMap_append]
        rfl
      rw [hheads]
      exact h.heads_sublist.trans (List.sublist_append_left rows [r])
  · rw [push_of_not_mem hmem]
    have hcases : ∀ g ∈ groups ++ [(key r, [r])], g ∈ groups ∨ g = (key r, [r]) := by
      intro g hg
      rwa [List.mem_append, List.mem_singleton] at hg
    refine ⟨?_, ?_, ?_, ?_, ?_⟩
    · rw [List.map_append]
      refine List.Nodup.append h.nodup (List.nodup_singleton _) fun x hx hr => hmem ?_
      rwa [← show x = key r from List.mem_singleton.mp hr]
    · intro g hg
      rcases hcases g hg with hg | rfl
      · have hne : key r ≠ g.1 := fun he => hmem (he ▸ List.mem_map_of_mem hg)
        rw [filter_concat_ne hne]
        exact h.rows_eq g hg
      · -- no row before has this key
        rw [filter_concat_eq rfl, List.filter_eq_nil_iff.mpr]
        · rfl
        · intro x hx he
          exact hmem (of_decide_eq_true he ▸ h.mem_keys x hx)
    · intro g hg
      rcases hcases g hg with hg | rfl
      · exact h.ne_nil g hg
      · exact List.cons_ne_nil _ _
    · intro x hx
      rw [List.map_append, List.mem_append]
      rcases List.mem_append.mp hx with hx | hx
      · exact Or.inl (h.mem_keys x hx)
      · rw [List.mem_singleton.mp hx]
        exact Or.inr List.mem_cons_self
    · rw [List.filterMap_append]
      exact h.heads_sublist.append (List.Sublist.refl [r])

theorem isGrouping_groupBy (key : α → κ) (rows : List α) :
    IsGrouping key (groupBy key rows) rows := by
  have hfold : ∀ (rest : List α) {done : List α} {groups : List (κ × List α)},
      IsGrouping key groups done →
        IsGrouping key (rest.foldl (fun groups r => push (key r) r groups) groups)
          (done ++ rest) := by
    intro rest
    induction rest with
    | nil =>
      intro done groups h
      rw [List.append_nil]
      exact h
    | cons r rest ih =>
      intro done groups h
      rw [List.foldl_cons, List.append_cons]
      exact ih (h.push r)
  exact hfold rows isGrouping_nil

/-! ## All rows -/

theorem perm_push (k : κ) (r : α) (groups : List (κ × List α)) :
    ((push k r groups).flatMap Prod.snd).Perm (r :: groups.flatMap Prod.snd) := by
  induction groups with
  | nil => exact List.Perm.refl _
  | cons g groups ih =>
    rw [push, List.flatMap_cons]
    split
    · rw [List.flatMap_cons, List.append_assoc]
      exact List.perm_middle
    · rw [List.flatMap_cons]
      exact (ih.append_left g.2).trans List.perm_middle

/-- The groups together are the rows. -/
theorem perm_flatMap (key : α → κ) (rows : List α) :
    ((groupBy key rows).flatMap Prod.snd).Perm rows := by
  have hfold : ∀ (rest : List α) (groups : List (κ × List α)),
      ((rest.foldl (fun groups r => push (key r) r groups) groups).flatMap Prod.snd).Perm
        (groups.flatMap Prod.snd ++ rest) := by
    intro rest
    induction rest with
    | nil =>
      intro groups
      rw [List.append_nil]
      exact List.Perm.refl _
    | cons r rest ih =>
      intro groups
      refine (ih _).trans (((perm_push (key r) r groups).append_right rest).trans ?_)
      exact List.perm_middle.symm
  exact hfold rows []

theorem sum_length_groupBy (key : α → κ) (rows : List α) :
    ((groupBy key rows).map fun g => g.2.length).sum = rows.length := by
  rw [← (perm_flatMap key rows).length_eq, List.length_flatMap]

/-! ## Reading a group -/

theorem IsGrouping.eq_of_key (h : IsGrouping key groups rows) {g' : κ × List α}
    (hg : g ∈ groups) (hg' : g' ∈ groups) (he : g.1 = g'.1) : g = g' := by
  refine Prod.ext he ?_
  rw [h.rows_eq g hg, h.rows_eq g' hg', he]

/-- The count of a key, `0` for a key without rows. -/
theorem lookup_tally (key : α → κ) (rows : List α) (k : κ) :
    ((tally key rows).lookup k).getD 0 = rows.countP fun r => key r = k := by
  have h := isGrouping_groupBy key rows
  unfold tally
  cases hk : ((groupBy key rows).map fun g => (g.1, g.2.length)).lookup k with
  | none =>
    have hnot := List.lookup_eq_none_iff.mp hk
    refine (List.countP_eq_zero.mpr fun r hr he => ?_).symm
    obtain ⟨g, hg, hgk⟩ := List.mem_map.mp (h.mem_keys r hr)
    have hne := hnot (g.1, g.2.length) (List.mem_map_of_mem hg)
    rw [hgk, of_decide_eq_true he, bne_self_eq_false] at hne
    cases hne
  | some n =>
    obtain ⟨before, after, hsplit, -⟩ := List.lookup_eq_some_iff.mp hk
    have hmem : (k, n) ∈ (groupBy key rows).map fun g => (g.1, g.2.length) := by
      rw [hsplit]
      exact List.mem_append_right _ List.mem_cons_self
    obtain ⟨g, hg, he⟩ := List.mem_map.mp hmem
    obtain ⟨rfl, rfl⟩ := Prod.mk.inj he
    rw [Option.getD_some, h.rows_eq g hg, List.countP_eq_length_filter]

theorem sum_tally (key : α → κ) (rows : List α) :
    ((tally key rows).map Prod.snd).sum = rows.length := by
  unfold tally
  rw [List.map_map]
  exact sum_length_groupBy key rows

theorem countP_mem_cons {ks : List κ} (hk : k ∉ ks) :
    (rows.countP fun r => key r ∈ k :: ks) =
      (rows.countP fun r => key r = k) + rows.countP fun r => key r ∈ ks := by
  induction rows with
  | nil => rfl
  | cons r rows ih =>
    simp only [List.countP_cons, List.mem_cons, decide_eq_true_eq] at ih ⊢
    -- a row has the key `k`, or another one
    by_cases hr : key r = k
    · have hnot : key r ∉ ks := by rwa [hr]
      rw [if_pos (Or.inl hr), if_pos hr, if_neg hnot]
      omega
    · simp only [hr, if_false, false_or] at ih ⊢
      omega

/-- The rows with one of some keys. -/
theorem sum_lookup_tally (key : α → κ) (rows : List α) {ks : List κ} (hks : ks.Nodup) :
    (ks.map fun k => ((tally key rows).lookup k).getD 0).sum =
      rows.countP fun r => key r ∈ ks := by
  induction ks with
  | nil => simp
  | cons k ks ih =>
    obtain ⟨hk, hks⟩ := List.nodup_cons.mp hks
    rw [List.map_cons, List.sum_cons, ih hks, lookup_tally, countP_mem_cons hk]

end Groups
end LeadPulse
