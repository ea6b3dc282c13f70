import LeadPulse.Lib.Table
import LeadPulse.Lib.Unseen

/-!
# Handing rows to another owner

Rows have an id and belong to an owner. To absorb an owner into another one is to go through
the rows of the first: those with an unseen key (`Lib/Unseen`) are given to the new owner,
the others are deleted. `mem_absorb` says what is in the table afterwards; the other lemmas
are read off it.
-/

namespace LeadPulse

/-- Rows that belong to an owner and can be given to another one. -/
structure Ownership (α : Type*) where
  id : α → ℕ
  owner : α → ℕ
  give : ℕ → α → α
  id_give : ∀ p r, id (give p r) = id r
  owner_give : ∀ p r, owner (give p r) = p
  give_owner : ∀ r, give (owner r) r = r

namespace Ownership

open Unseen

variable {α κ : Type*} [DecidableEq κ] (o : Ownership α) (key : α → Option κ) (seen : List κ)
  (order rows : List α) (p d : ℕ)

/-- The rows when those in `order` have been given to `p` or deleted. -/
def absorb : List α :=
  (rows.map fun r => if o.id r ∈ (unseen key seen order).map o.id then o.give p r else r).filter
    fun r => o.id r ∉ (repeated key seen order).map o.id

variable {o key seen order rows p d} {r s : α}

theorem eq_of_id (hkeyed : Table.Keyed o.id rows) (hr : r ∈ rows) (hs : s ∈ rows)
    (h : o.id r = o.id s) : r = s :=
  List.inj_on_of_nodup_map hkeyed hr hs h

section

variable (hkeyed : Table.Keyed o.id rows)
  (horder : order.Perm (rows.filter fun r => o.owner r = d))

include horder

theorem mem_order : r ∈ order ↔ r ∈ rows ∧ o.owner r = d := by
  rw [horder.mem_iff, List.mem_filter, decide_eq_true_eq]

include hkeyed

theorem id_mem_unseen (hr : r ∈ rows) :
    o.id r ∈ (unseen key seen order).map o.id ↔ r ∈ unseen key seen order := by
  constructor
  · intro h
    obtain ⟨s, hs, hid⟩ := List.mem_map.mp h
    have hsrows := ((mem_order horder).mp (mem_of_mem_unseen hs)).1
    rw [eq_of_id hkeyed hr hsrows hid.symm]
    exact hs
  · exact List.mem_map_of_mem

theorem id_mem_repeated (hr : r ∈ rows) :
    o.id r ∈ (repeated key seen order).map o.id ↔ r ∈ repeated key seen order := by
  constructor
  · intro h
    obtain ⟨s, hs, hid⟩ := List.mem_map.mp h
    have hsrows := ((mem_order horder).mp (mem_of_mem_repeated hs)).1
    rw [eq_of_id hkeyed hr hsrows hid.symm]
    exact hs
  · exact List.mem_map_of_mem

/-- No row is both given away and deleted. -/
theorem not_mem_repeated (h : r ∈ unseen key seen order) : r ∉ repeated key seen order := by
  have hnodup : rows.Nodup := List.Nodup.of_map _ hkeyed
  have happend : (unseen key seen order ++ repeated key seen order).Nodup :=
    ((perm_unseen_repeated key seen order).trans horder).nodup_iff.mpr (hnodup.filter _)
  exact fun hrep => (List.disjoint_of_nodup_append happend) h hrep

/-- The table afterwards: what did not belong to `d`, and the rows that were given away. -/
theorem mem_absorb : s ∈ absorb o key seen order rows p ↔
    (s ∈ rows ∧ o.owner s ≠ d) ∨ ∃ r ∈ unseen key seen order, s = o.give p r := by
  unfold absorb
  rw [List.mem_filter, List.mem_map, decide_eq_true_eq]
  constructor
  · rintro ⟨⟨r, hr, rfl⟩, hkept⟩
    by_cases hu : r ∈ unseen key seen order
    · right
      rw [if_pos ((id_mem_unseen hkeyed horder hr).mpr hu)]
      exact ⟨r, hu, rfl⟩
    · left
      have hid : o.id r ∉ (unseen key seen order).map o.id := by
        rw [id_mem_unseen hkeyed horder hr]
        exact hu
      rw [if_neg hid, id_mem_repeated hkeyed horder hr] at hkept
      rw [if_neg hid]
      refine ⟨hr, fun howner => ?_⟩
      -- a row of `d` that is neither given away nor deleted
      have hmem := (mem_order horder).mpr ⟨hr, howner⟩
      rcases mem_unseen_or_repeated key seen hmem with h | h
      · exact hu h
      · exact hkept h
  · rintro (⟨hs, howner⟩ | ⟨r, hr, rfl⟩)
    · have hnot : s ∉ order := fun h => howner ((mem_order horder).mp h).2
      have hu : o.id s ∉ (unseen key seen order).map o.id := by
        rw [id_mem_unseen hkeyed horder hs]
        exact fun h => hnot (mem_of_mem_unseen h)
      have hrep : o.id s ∉ (repeated key seen order).map o.id := by
        rw [id_mem_repeated hkeyed horder hs]
        exact fun h => hnot (mem_of_mem_repeated h)
      exact ⟨⟨s, hs, if_neg hu⟩, hrep⟩
    · have hrows := ((mem_order horder).mp (mem_of_mem_unseen hr)).1
      refine ⟨⟨r, hrows, if_pos ((id_mem_unseen hkeyed horder hrows).mpr hr)⟩, ?_⟩
      rw [o.id_give, id_mem_repeated hkeyed horder hrows]
      exact not_mem_repeated hkeyed horder hr

/-- Nothing is left of the absorbed owner. -/
theorem owner_ne_of_mem_absorb (hpd : p ≠ d) (h : s ∈ absorb o key seen order rows p) :
    o.owner s ≠ d := by
  rcases (mem_absorb hkeyed horder).mp h with ⟨-, hs⟩ | ⟨r, -, rfl⟩
  · exact hs
  · rw [o.owner_give]
    exact hpd

/-- The rows of the others stay as they are. -/
theorem mem_absorb_of_other (hp : o.owner s ≠ p) (hd : o.owner s ≠ d) :
    s ∈ absorb o key seen order rows p ↔ s ∈ rows := by
  rw [mem_absorb hkeyed horder]
  constructor
  · rintro (⟨hs, -⟩ | ⟨r, -, rfl⟩)
    · exact hs
    · exact absurd (o.owner_give p r) hp
  · exact fun hs => Or.inl ⟨hs, hd⟩

/-- A row of `p` or `d` belongs to `p` afterwards, or it is gone and `p` has a row of the
same key. -/
theorem absorb_conserves (key : α → Option κ) (hpd : p ≠ d) (hkey : ∀ r, key (o.give p r) = key r)
    (hseen : ∀ r k, key r = some k → k ∈ seen → ∃ s ∈ rows, o.owner s = p ∧ key s = some k)
    (hr : r ∈ rows) (howner : o.owner r = p ∨ o.owner r = d) :
    o.give p r ∈ absorb o key seen order rows p ∨
      ((∀ s ∈ absorb o key seen order rows p, o.id s ≠ o.id r) ∧
        ∃ s ∈ absorb o key seen order rows p, o.owner s = p ∧
          ∃ k, key r = some k ∧ key s = some k) := by
  rcases howner with howner | howner
  · left
    rw [mem_absorb hkeyed horder, ← howner, o.give_owner]
    left
    refine ⟨hr, ?_⟩
    rw [howner]
    exact hpd
  · have hmem := (mem_order horder).mpr ⟨hr, howner⟩
    rcases mem_unseen_or_repeated key seen hmem with h | h
    · left
      rw [mem_absorb hkeyed horder]
      exact Or.inr ⟨r, h, rfl⟩
    · right
      constructor
      · intro s hs hid
        rcases (mem_absorb hkeyed horder).mp hs with ⟨hrows, hsd⟩ | ⟨u, hu, rfl⟩
        · rw [eq_of_id hkeyed hrows hr hid] at hsd
          exact hsd howner
        · -- a row that was given away is not a deleted one
          rw [o.id_give] at hid
          have hrows := ((mem_order horder).mp (mem_of_mem_unseen hu)).1
          rw [eq_of_id hkeyed hrows hr hid] at hu
          exact not_mem_repeated hkeyed horder hu h
      · obtain ⟨k, hk, hor⟩ := exists_of_mem_repeated h
        rcases hor with hmem | ⟨u, hu, hku⟩
        · obtain ⟨s, hs, hsp, hsk⟩ := hseen r k hk hmem
          refine ⟨s, (mem_absorb hkeyed horder).mpr (Or.inl ⟨hs, ?_⟩), hsp, k, hk, hsk⟩
          rw [hsp]
          exact hpd
        · refine ⟨o.give p u, (mem_absorb hkeyed horder).mpr (Or.inr ⟨u, hu, rfl⟩),
            o.owner_give p u, k, hk, ?_⟩
          rw [hkey]
          exact hku

end

end Ownership
end LeadPulse
