import LeadPulse.Lib.Groups
import LeadPulse.Lib.OrderedPages
import Mathlib.Data.List.Dedup

/-!
# The first rows of the first groups

A query sorts its rows, and what is shown of the answer is grouped by a key: the first `n` groups,
and of each of them its first `m` rows. Where the order does not tell rows apart, the database
chooses, and so it may decide which of them are shown.

* `Listed key n m s r`: the row `r` of the answer `s` is shown;
* `keysThrough`: the number of groups that may come up to the one with the key `k`;
* `listed_always_iff`: a row is shown whatever the answer is, exactly if these groups are not more
  than `n`, and the rows of its group that may come up to it not more than `m`.
-/

namespace LeadPulse
namespace Groups

open Paging

variable {α κ : Type*} [DecidableEq κ]

/-- The row is shown: one of the first `m` rows of one of the first `n` groups. -/
def Listed (key : α → κ) (n m : ℕ) (s : List α) (r : α) : Prop :=
  ∃ g ∈ (groupBy key s).take n, r ∈ g.2.take m

/-- The group of `k'` may come before the one of `k`: a row of it may come before all of them. -/
def mayLead (o : SortOrder α) (key : α → κ) (rows : List α) (k k' : κ) : Bool :=
  rows.any fun r' => key r' = k' && rows.all fun r => !decide (key r = k) || o.le r' r

/-- The number of groups that may come before the one of `k`, and this one. -/
def keysThrough (o : SortOrder α) (key : α → κ) (rows : List α) (k : κ) : ℕ :=
  (rows.map key).dedup.countP (mayLead o key rows k)

variable {o : SortOrder α} {key : α → κ} {rows s : List α} {groups : List (κ × List α)} {r : α}
  {k k' : κ} {n m : ℕ}

theorem mayLead_iff : mayLead o key rows k k' = true ↔
    ∃ r' ∈ rows, key r' = k' ∧ ∀ r ∈ rows, key r = k → o.le r' r = true := by
  unfold mayLead
  simp only [List.any_eq_true, Bool.and_eq_true, decide_eq_true_eq, List.all_eq_true,
    Bool.or_eq_true, Bool.not_eq_true', decide_eq_false_iff_not, ← imp_iff_not_or]

/-! ## The front of a list -/

section Front

variable {β : Type*} {l : List β} {a : β} {p : β → Bool}

/-- If what comes up to `a` satisfies `p`, and this is not much, then `a` is in front. -/
theorem mem_take_of_countP_le (ha : a ∈ l)
    (hp : ∀ before after, l = before ++ a :: after → ∀ b ∈ before ++ [a], p b = true)
    (hn : l.countP p ≤ n) : a ∈ l.take n := by
  obtain ⟨before, after, rfl⟩ := List.append_of_mem ha
  have hall : (before ++ [a]).countP p = before.length + 1 := by
    rw [List.countP_eq_length.mpr (hp before after rfl), List.length_append]
    rfl
  have hlt : before.length < n := by
    rw [List.append_cons, List.countP_append, hall] at hn
    omega
  rw [List.take_append, List.take_of_length_le hlt.le, ← Nat.sub_add_cancel (Nat.sub_pos_of_lt hlt),
    List.take_succ_cons]
  exact List.mem_append_right _ List.mem_cons_self

/-- If much satisfies `p`, and nothing behind `a` does, then `a` is not in front. -/
theorem not_mem_take_of_lt_countP (hnodup : l.Nodup)
    (hp : ∀ before after, l = before ++ a :: after → ∀ b ∈ after, p b = false)
    (hn : n < l.countP p) : a ∉ l.take n := by
  intro hmem
  obtain ⟨before, after, rfl⟩ := List.append_of_mem (List.mem_of_mem_take hmem)
  have hnone : after.countP p = 0 := by
    rw [List.countP_eq_zero]
    intro b hb
    rw [hp before after rfl b hb]
    exact Bool.false_ne_true
  have hle : n ≤ before.length := by
    have hone : (before ++ [a]).countP p ≤ (before ++ [a]).length := List.countP_le_length
    rw [List.length_append, List.length_singleton] at hone
    rw [List.append_cons, List.countP_append, hnone] at hn
    omega
  rw [List.take_append_of_le_length hle] at hmem
  -- it would be there twice
  rw [List.nodup_middle, List.nodup_cons] at hnodup
  exact hnodup.1 (List.mem_append_left _ (List.mem_of_mem_take hmem))

end Front

/-! ## Where a row and a group can be -/

theorem mem_take_of_numThrough_le (h : SortedAs o rows s) (hr : r ∈ rows)
    (hn : numThrough o rows r ≤ n) : r ∈ s.take n := by
  refine mem_take_of_countP_le (p := fun x => o.le x r) (h.perm.mem_iff.mpr hr) ?_ ?_
  · rintro before after rfl b hb
    rcases List.mem_append.mp hb with hb | hb
    · exact (List.pairwise_append.mp h.sorted).2.2 b hb r List.mem_cons_self
    · rw [List.mem_singleton.mp hb]
      exact o.refl r
  · rw [h.perm.countP_eq]
    exact hn

/-- The rows of one key are sorted, too. -/
theorem sortedAs_filter (h : SortedAs o rows s) (p : α → Bool) :
    SortedAs o (rows.filter p) (s.filter p) where
  perm := h.perm.filter p
  sorted := h.sorted.sublist List.filter_sublist

/-- The first row of a group comes before its other rows. -/
theorem IsGrouping.exists_head (h : IsGrouping key groups s) (ho : SortedAs o rows s)
    {g : κ × List α} (hg : g ∈ groups) :
    ∃ r ∈ g.2.head?, r ∈ rows ∧ key r = g.1 ∧ ∀ x ∈ rows, key x = g.1 → o.le r x = true := by
  have hrows := h.rows_eq g hg
  obtain ⟨r, rest, hcons⟩ := List.exists_cons_of_ne_nil (h.ne_nil g hg)
  have hmem : ∀ x, x ∈ r :: rest ↔ x ∈ rows ∧ key x = g.1 := by
    intro x
    rw [← hcons, hrows, List.mem_filter, ho.perm.mem_iff, decide_eq_true_eq]
  have hsorted : (r :: rest).Pairwise fun a b => o.le a b = true := by
    rw [← hcons, hrows]
    exact ho.sorted.sublist List.filter_sublist
  obtain ⟨hr, hkey⟩ := (hmem r).mp List.mem_cons_self
  refine ⟨r, ?_, hr, hkey, fun x hx hxk => ?_⟩
  · rw [hcons]
    rfl
  · rcases List.mem_cons.mp ((hmem x).mpr ⟨hx, hxk⟩) with rfl | hx
    · exact o.refl x
    · exact (List.pairwise_cons.mp hsorted).1 x hx

/-- The groups are sorted by their first rows. -/
theorem IsGrouping.pairwise_heads (h : IsGrouping key groups s) (ho : SortedAs o rows s) :
    groups.Pairwise fun g g' => ∀ r ∈ g.2.head?, ∀ r' ∈ g'.2.head?, o.le r r' = true := by
  have hheads := ho.sorted.sublist h.heads_sublist
  exact List.pairwise_filterMap.mp hheads

theorem IsGrouping.keys_perm (h : IsGrouping key groups s) (ho : SortedAs o rows s) :
    (groups.map Prod.fst).Perm (rows.map key).dedup := by
  refine (List.perm_ext_iff_of_nodup h.nodup (List.nodup_dedup _)).mpr fun k => ?_
  rw [List.mem_dedup]
  constructor
  · intro hk
    obtain ⟨g, hg, rfl⟩ := List.mem_map.mp hk
    obtain ⟨r, -, hr, hkey, -⟩ := h.exists_head ho hg
    exact List.mem_map.mpr ⟨r, hr, hkey⟩
  · intro hk
    obtain ⟨r, hr, rfl⟩ := List.mem_map.mp hk
    exact h.mem_keys r (ho.perm.mem_iff.mpr hr)

/-- The group of a row is in front, if not many groups may come before it. -/
theorem exists_group_of_keysThrough_le (h : SortedAs o rows s) (hr : r ∈ rows)
    (hn : keysThrough o key rows (key r) ≤ n) : ∃ g ∈ (groupBy key s).take n, g.1 = key r := by
  have hgroups := isGrouping_groupBy key s
  obtain ⟨g, hg, hgr⟩ := List.mem_map.mp (hgroups.mem_keys r (h.perm.mem_iff.mpr hr))
  refine ⟨g, ?_, hgr⟩
  refine mem_take_of_countP_le (p := fun g' => mayLead o key rows (key r) g'.1) hg ?_ ?_
  · intro before after hsplit b hb
    have hb' : b ∈ groupBy key s := by
      rw [hsplit, List.append_cons]
      exact List.mem_append_left _ hb
    obtain ⟨y, hy, -, -, hle⟩ := hgroups.exists_head h hg
    obtain ⟨x, hx, hxr, hxk, -⟩ := hgroups.exists_head h hb'
    rw [hgr] at hle
    -- the head of the group `b` comes before the one of `g`, and so before all its rows
    have hxy : o.le x y = true := by
      rcases List.mem_append.mp hb with hb | hb
      · have hheads := hgroups.pairwise_heads h
        rw [hsplit] at hheads
        exact (List.pairwise_append.mp hheads).2.2 b hb g List.mem_cons_self x hx y hy
      · rw [List.mem_singleton.mp hb] at hx
        obtain rfl : x = y := Option.some.inj (hx.symm.trans hy)
        exact o.refl x
    exact mayLead_iff.mpr ⟨x, hxr, hxk, fun z hz hzk => o.trans x y z hxy (hle z hz hzk)⟩
  · have hcount := (hgroups.keys_perm h).countP_eq (mayLead o key rows (key r))
    rw [List.countP_map] at hcount
    exact hcount.trans_le hn

theorem listed_of_le (h : SortedAs o rows s) (hr : r ∈ rows)
    (hn : keysThrough o key rows (key r) ≤ n)
    (hm : numThrough o (rows.filter fun x => key x = key r) r ≤ m) : Listed key n m s r := by
  obtain ⟨g, hg, hgr⟩ := exists_group_of_keysThrough_le h hr hn
  refine ⟨g, hg, ?_⟩
  rw [(isGrouping_groupBy key s).rows_eq g (List.mem_of_mem_take hg), hgr]
  exact mem_take_of_numThrough_le (sortedAs_filter h _)
    (List.mem_filter.mpr ⟨hr, decide_eq_true rfl⟩) hm

/-! ## The worst answer -/

section Worst

variable [DecidableEq α]

/-- Where the order does not tell: other groups first, and `r` last of its group. -/
def worstRank (key : α → κ) (r x : α) : ℕ :=
  if x = r then 2 else if key x = key r then 1 else 0

def worst (o : SortOrder α) (key : α → κ) (r : α) : SortOrder α :=
  o.thenBy (SortOrder.asc.onKey (worstRank key r))

theorem le_of_worst {x y : α} (h : (worst o key r).le x y = true) : o.le x y = true :=
  (Bool.and_eq_true _ _ ▸ h).1

theorem rank_le_of_worst {x y : α} (h : (worst o key r).le x y = true) (hyx : o.le y x = true) :
    worstRank key r x ≤ worstRank key r y := by
  have hand : (o.le x y && (!o.le y x || decide (worstRank key r x ≤ worstRank key r y))) = true :=
    h
  rw [hyx, Bool.not_true, Bool.false_or, Bool.and_eq_true, decide_eq_true_eq] at hand
  exact hand.2

theorem sortedAs_of_worst (h : SortedAs (worst o key r) rows s) : SortedAs o rows s where
  perm := h.perm
  sorted := h.sorted.imp le_of_worst

theorem not_mem_take_worst (h : SortedAs (worst o key r) rows s) (hnodup : rows.Nodup)
    (hm : m < numThrough o (rows.filter fun x => key x = key r) r) :
    r ∉ (s.filter fun x => key x = key r).take m := by
  have hs := sortedAs_filter h fun x => decide (key x = key r)
  have hnodup' : (s.filter fun x => key x = key r).Nodup :=
    (h.perm.nodup_iff.mpr hnodup).filter _
  refine not_mem_take_of_lt_countP (p := fun x => o.le x r) hnodup' ?_ ?_
  · intro before after hsplit b hb
    by_contra hbr
    rw [Bool.not_eq_false] at hbr
    have hsorted := hs.sorted
    rw [hsplit, List.pairwise_append, List.pairwise_cons] at hsorted
    have hrank := rank_le_of_worst (hsorted.2.1.1 b hb) hbr
    have hne : b ≠ r := by
      rintro rfl
      rw [hsplit, List.nodup_middle, List.nodup_cons] at hnodup'
      exact hnodup'.1 (List.mem_append_right _ hb)
    -- `r` has the greatest rank, and is the only one that has it
    unfold worstRank at hrank
    rw [if_pos rfl, if_neg hne] at hrank
    split at hrank <;> omega
  · rw [(h.perm.filter fun x => decide (key x = key r)).countP_eq]
    exact hm

theorem not_mem_take_groups (h : SortedAs (worst o key r) rows s)
    (hn : n < keysThrough o key rows (key r)) :
    ∀ g ∈ (groupBy key s).take n, g.1 ≠ key r := by
  intro g hg hgr
  have hgroups := isGrouping_groupBy key s
  have hcount : (groupBy key s).countP (fun g' => mayLead o key rows (key r) g'.1) =
      keysThrough o key rows (key r) := by
    have hkeys := (hgroups.keys_perm h).countP_eq (mayLead o key rows (key r))
    rwa [List.countP_map] at hkeys
  refine not_mem_take_of_lt_countP (p := fun g' => mayLead o key rows (key r) g'.1)
    (hgroups.nodup.of_map _) ?_ (hn.trans_eq hcount.symm) hg
  intro before after hsplit b hb
  by_contra hlead
  rw [Bool.not_eq_false] at hlead
  obtain ⟨z, hz, hzb, hle⟩ := mayLead_iff.mp hlead
  have hg' : g ∈ groupBy key s := List.mem_of_mem_take hg
  have hb' : b ∈ groupBy key s := by
    rw [hsplit, List.append_cons]
    exact List.mem_append_right _ hb
  obtain ⟨y, hy, hyr, hyk, -⟩ := hgroups.exists_head h hg'
  obtain ⟨x, hx, -, -, hxle⟩ := hgroups.exists_head h hb'
  have hheads := hgroups.pairwise_heads h
  rw [hsplit, List.pairwise_append, List.pairwise_cons] at hheads
  have hyx := hheads.2.1.1 b hb y hy x hx
  have hyz := (worst o key r).trans y x z hyx (hxle z hz hzb)
  have hrank := rank_le_of_worst hyz (hle y hyr (hyk.trans hgr))
  have hne : key z ≠ key r := by
    have hnodup := hgroups.nodup
    rw [hsplit, List.map_append, List.map_cons, List.nodup_middle, List.nodup_cons] at hnodup
    intro he
    refine hnodup.1 (List.mem_append_right _ (List.mem_map.mpr ⟨b, hb, ?_⟩))
    rw [hgr, ← hzb, he]
  have hzr : z ≠ r := fun he => hne (congrArg key he)
  -- a row of another group has rank zero
  unfold worstRank at hrank
  rw [if_neg hzr, if_neg hne, if_pos (hyk.trans hgr)] at hrank
  split at hrank <;> omega

end Worst

/-- A row is shown, however the database sorts rows that the order does not tell apart, exactly if
not more than `n` groups may come up to its group, and not more than `m` rows of it up to the
row. -/
theorem listed_always_iff [DecidableEq α] (hnodup : rows.Nodup) (hr : r ∈ rows) :
    (∀ s, SortedAs o rows s → Listed key n m s r) ↔
      keysThrough o key rows (key r) ≤ n ∧
        numThrough o (rows.filter fun x => key x = key r) r ≤ m := by
  constructor
  · intro h
    have hworst := answer_mergeSort (worst o key r) rows
    obtain ⟨g, hg, hmem⟩ := h _ (sortedAs_of_worst hworst)
    have hgroups := isGrouping_groupBy key (rows.mergeSort (worst o key r).le)
    have hrows := hgroups.rows_eq g (List.mem_of_mem_take hg)
    have hgr : key r = g.1 := by
      have hin := List.mem_of_mem_take hmem
      rw [hrows, List.mem_filter, decide_eq_true_eq] at hin
      exact hin.2
    constructor
    · by_contra hn
      exact not_mem_take_groups hworst (Nat.lt_of_not_le hn) g hg hgr.symm
    · by_contra hm
      rw [hrows, ← hgr] at hmem
      exact not_mem_take_worst hworst hnodup (Nat.lt_of_not_le hm) hmem
  · rintro ⟨hn, hm⟩ s hs
    exact listed_of_le hs hr hn hm

end Groups
end LeadPulse
