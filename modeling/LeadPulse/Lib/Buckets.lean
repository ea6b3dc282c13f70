import Mathlib.Data.List.Nodup
import Mathlib.Data.List.Perm.Basic
import Mathlib.Tactic.Common

/-!
# Buckets in the order of their keys

`buckets.setdefault(key, []).append(row)` on a dictionary that keeps its keys in the order in
which they came: a row joins the bucket of its key, or opens a new one at the end. `Sorted`
says what the buckets of the rows so far look like, `sorted_put` that a further row keeps it.
-/

namespace LeadPulse
namespace Buckets

variable {α κ : Type*} {key : α → κ} {buckets : List (κ × List α)}
  {rows : List α} {r s : α} {k : κ}

/-- A row joins the bucket of the key `k`. -/
def put [DecidableEq κ] (k : κ) (r : α) : List (κ × List α) → List (κ × List α)
  | [] => [(k, [r])]
  | (k', b) :: buckets => if k' = k then (k', b ++ [r]) :: buckets else (k', b) :: put k r buckets

/-- Each of the rows is in the bucket of its key, and there is one bucket for each key. -/
structure Sorted (key : α → κ) (rows : List α) (buckets : List (κ × List α)) : Prop where
  keys : (buckets.map Prod.fst).Nodup
  key_eq : ∀ k b, (k, b) ∈ buckets → ∀ r ∈ b, key r = k
  perm : (buckets.flatMap Prod.snd).Perm rows

theorem sorted_nil : Sorted key [] [] where
  keys := List.nodup_nil
  key_eq k b h := by cases h
  perm := List.Perm.refl []

/-- The bucket of a row. -/
theorem Sorted.exists_bucket (h : Sorted key rows buckets) (hr : r ∈ rows) :
    ∃ b, (key r, b) ∈ buckets ∧ r ∈ b := by
  obtain ⟨⟨k, b⟩, hb, hmem⟩ := List.mem_flatMap.mp (h.perm.mem_iff.mpr hr)
  have hk := h.key_eq k b hb r hmem
  exact ⟨b, hk ▸ hb, hmem⟩

theorem eq_of_mem {b b' : List α} (h : (buckets.map Prod.fst).Nodup) (hb : (k, b) ∈ buckets)
    (hb' : (k, b') ∈ buckets) : b = b' := by
  have hpair := List.inj_on_of_nodup_map h hb hb' rfl
  exact (Prod.mk.inj hpair).2

/-- Rows of one key are in one bucket. -/
theorem Sorted.same_bucket (h : Sorted key rows buckets) (hr : r ∈ rows) (hs : s ∈ rows)
    (hkey : key r = key s) : ∃ b, (key r, b) ∈ buckets ∧ r ∈ b ∧ s ∈ b := by
  obtain ⟨b, hb, hrb⟩ := h.exists_bucket hr
  obtain ⟨b', hb', hsb⟩ := h.exists_bucket hs
  rw [← hkey] at hb'
  obtain rfl := eq_of_mem h.keys hb hb'
  exact ⟨b, hb, hrb, hsb⟩

/-! ## A further row -/

variable [DecidableEq κ]

theorem mem_keys_put {k' : κ} :
    k' ∈ (put k r buckets).map Prod.fst ↔ k' = k ∨ k' ∈ buckets.map Prod.fst := by
  induction buckets with
  | nil => simp [put]
  | cons p buckets ih =>
    obtain ⟨k₀, b⟩ := p
    by_cases h : k₀ = k
    · subst h
      simp [put]
    · simp only [put, if_neg h, List.map_cons, List.mem_cons, ih]
      exact or_left_comm

theorem keys_put (h : (buckets.map Prod.fst).Nodup) : ((put k r buckets).map Prod.fst).Nodup := by
  induction buckets with
  | nil => simp [put]
  | cons p buckets ih =>
    obtain ⟨k₀, b⟩ := p
    obtain ⟨hnot, hrest⟩ := List.nodup_cons.mp h
    by_cases hk : k₀ = k
    · simp only [put, if_pos hk]
      exact h
    · simp only [put, if_neg hk, List.map_cons, List.nodup_cons]
      refine ⟨fun hmem => ?_, ih hrest⟩
      rcases mem_keys_put.mp hmem with heq | hmem
      · exact hk heq
      · exact hnot hmem

theorem perm_put : ((put k r buckets).flatMap Prod.snd).Perm (buckets.flatMap Prod.snd ++ [r]) := by
  induction buckets with
  | nil => exact List.Perm.refl _
  | cons p buckets ih =>
    obtain ⟨k₀, b⟩ := p
    by_cases hk : k₀ = k
    · simp only [put, if_pos hk, List.flatMap_cons, List.append_assoc]
      exact List.perm_append_comm.append_left b
    · simp only [put, if_neg hk, List.flatMap_cons, List.append_assoc]
      exact ih.append_left b

theorem key_eq_put (h : ∀ k b, (k, b) ∈ buckets → ∀ r ∈ b, key r = k) (hr : key r = k) :
    ∀ k' b, (k', b) ∈ put k r buckets → ∀ s ∈ b, key s = k' := by
  induction buckets with
  | nil =>
    intro k' b hb s hs
    obtain ⟨rfl, rfl⟩ : k' = k ∧ b = [r] := by simpa [put] using hb
    rw [List.mem_singleton.mp hs]
    exact hr
  | cons p buckets ih =>
    obtain ⟨k₀, b₀⟩ := p
    intro k' b hb s hs
    by_cases hk : k₀ = k
    · simp only [put, if_pos hk, List.mem_cons, Prod.mk.injEq] at hb
      rcases hb with ⟨rfl, rfl⟩ | hb
      · rcases List.mem_append.mp hs with hs | hs
        · exact h k' b₀ List.mem_cons_self s hs
        · rw [List.mem_singleton.mp hs, hr, hk]
      · exact h k' b (List.mem_cons_of_mem _ hb) s hs
    · simp only [put, if_neg hk, List.mem_cons, Prod.mk.injEq] at hb
      rcases hb with ⟨rfl, rfl⟩ | hb
      · exact h k' b List.mem_cons_self s hs
      · exact ih (fun k b hb => h k b (List.mem_cons_of_mem _ hb)) k' b hb s hs

theorem sorted_put (h : Sorted key rows buckets) (hr : key r = k) :
    Sorted key (rows ++ [r]) (put k r buckets) where
  keys := keys_put h.keys
  key_eq := key_eq_put h.key_eq hr
  perm := perm_put.trans (h.perm.append_right [r])

end Buckets
end LeadPulse
