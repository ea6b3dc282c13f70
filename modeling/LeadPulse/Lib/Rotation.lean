import LeadPulse.Lib.OrderedPages
import LeadPulse.Lib.Run
import Mathlib.Algebra.BigOperators.Group.List.Basic
import Mathlib.Algebra.GroupWithZero.Nat
import Mathlib.Data.Finset.Card

/-!
# Serving the best first

A server that cannot serve everyone serves the `n` best of an order, `ORDER BY … LIMIT n`, and
comes back for others later.

* `IsTop o n rows top`: `top` may be the answer to the query. Who is not in it has `n` others in
  front (`IsTop.le`, `IsTop.length_of_not_mem`), and who has `n` others strictly in front is not
  in it (`IsTop.not_mem_of_before`);
* `card_sdiff_union_ge`: a round that serves nobody twice serves new ones, all but those that do
  not count;
* `exec_growth`: what grows with every round, up to the round that reaches the goal, has grown
  with all of them at the end of a run that does not reach it.
-/

namespace LeadPulse
namespace Rotation

open Paging

/-! ## The first rows of an order -/

section

variable {α : Type*} {o : SortOrder α} {n : ℕ} {rows top : List α} {x y : α}

/-- The first `n` rows in an order that the database may put them in. -/
def IsTop (o : SortOrder α) (n : ℕ) (rows top : List α) : Prop :=
  ∃ s, SortedAs o rows s ∧ top = s.take n

theorem IsTop.subset (h : IsTop o n rows top) : top ⊆ rows := by
  obtain ⟨s, hs, rfl⟩ := h
  intro x hx
  exact hs.perm.mem_iff.mp (List.mem_of_mem_take hx)

/-- What is selected once has pairwise distinct keys if the rows have. -/
theorem IsTop.nodup_map {β : Type*} {key : α → β} (h : IsTop o n rows top)
    (hkeys : (rows.map key).Nodup) : (top.map key).Nodup := by
  obtain ⟨s, hs, rfl⟩ := h
  have hall : (s.map key).Nodup := (hs.perm.map key).nodup_iff.mpr hkeys
  exact hall.sublist ((List.take_sublist n s).map key)

/-- A row that is left out stands behind the rows that are not. -/
theorem IsTop.le (h : IsTop o n rows top) (hx : x ∈ top) (hy : y ∈ rows) (hnot : y ∉ top) :
    o.le x y = true := by
  obtain ⟨s, hs, rfl⟩ := h
  have hsorted := hs.sorted
  have hy' : y ∈ s.take n ++ s.drop n := by
    rw [List.take_append_drop]
    exact hs.perm.mem_iff.mpr hy
  have hdrop := (List.mem_append.mp hy').resolve_left hnot
  rw [← List.take_append_drop n s] at hsorted
  exact (List.pairwise_append.mp hsorted).2.2 x hx y hdrop

/-- If a row is left out, the selection is full. -/
theorem IsTop.length_of_not_mem (h : IsTop o n rows top) (hy : y ∈ rows) (hnot : y ∉ top) :
    top.length = n := by
  obtain ⟨s, hs, rfl⟩ := h
  have hy' := hs.perm.mem_iff.mpr hy
  have hlt : n < s.length := by
    by_contra hle
    rw [List.take_of_length_le (by omega)] at hnot
    exact hnot hy'
  rw [List.length_take]
  omega

/-- A row with at least `n` others strictly in front is left out. -/
theorem IsTop.not_mem_of_before {ahead : List α} (h : IsTop o n rows top)
    (hnodup : ahead.Nodup) (hsub : ahead ⊆ rows) (hn : n ≤ ahead.length)
    (hbefore : ∀ x ∈ ahead, o.le y x = false) : y ∉ top := by
  intro hy
  have hnot : y ∉ ahead := by
    intro hmem
    have hself := hbefore y hmem
    rw [o.refl y] at hself
    cases hself
  -- the rows strictly in front of `y` come before it, and so all of them are selected
  have hahead : y :: ahead ⊆ top := by
    refine List.cons_subset.mpr ⟨hy, fun x hx => ?_⟩
    by_contra hleft
    have hle := h.le hy (hsub hx) hleft
    rw [hbefore x hx] at hle
    cases hle
  have hle := (List.subperm_of_subset (List.nodup_cons.mpr ⟨hnot, hnodup⟩) hahead).length_le
  obtain ⟨s, hs, rfl⟩ := h
  rw [List.length_cons, List.length_take] at hle
  omega

end

/-! ## Counting who has been served -/

/-- A round of distinct ones that have not been served yet: all of them count, but for those in
`F`. -/
theorem card_sdiff_union_ge {served F : Finset ℕ} {round : List ℕ} (hnodup : round.Nodup)
    (hnew : ∀ x ∈ round, x ∉ F → x ∉ served) :
    (served \ F).card + (round.length - F.card) ≤ ((served ∪ round.toFinset) \ F).card := by
  have hround : round.toFinset.card = round.length := List.toFinset_card_of_nodup hnodup
  have hdisjoint : Disjoint (served \ F) (round.toFinset \ F) := by
    rw [Finset.disjoint_left]
    intro x hserved hx
    obtain ⟨hx, hF⟩ := Finset.mem_sdiff.mp hx
    exact hnew x (List.mem_toFinset.mp hx) hF (Finset.mem_sdiff.mp hserved).1
  rw [Finset.union_sdiff_distrib, Finset.card_union_of_disjoint hdisjoint, ← hround]
  have hle := Finset.le_card_sdiff F round.toFinset
  omega

/-! ## Progress along a run -/

variable {S A G : Type*} {step : S → A → Option S}

/-- What has been done so far, `g`, need not be part of the state. As long as the goal is not
reached, `Φ g` grows by the weight of each step. -/
theorem exec_growth (Goal : S → Prop) (I : G → S → Prop) {C : S → A → Prop} (Φ : G → ℕ)
    (weight : A → ℕ)
    (hkeep : ∀ s a s', Goal s → C s a → step s a = some s' → Goal s')
    (hstep : ∀ g s a s', I g s → C s a → step s a = some s' →
      Goal s' ∨ ∃ g', I g' s' ∧ Φ g + weight a ≤ Φ g') {g : G} {s s' : S} {as : List A}
    (h₀ : I g s) (hC : Run.AllSteps step C s as) (hs : Run.exec step s as = some s') :
    Goal s' ∨ ∃ g', I g' s' ∧ Φ g + (as.map weight).sum ≤ Φ g' := by
  induction as generalizing g s with
  | nil =>
    obtain rfl : s = s' := by simpa using hs
    exact Or.inr ⟨g, h₀, by simp⟩
  | cons a as ih =>
    rw [Run.exec_cons, Option.bind_eq_some_iff] at hs
    obtain ⟨t, ht, hts⟩ := hs
    obtain ⟨hCa, hCas⟩ := hC t ht
    rcases hstep g s a t h₀ hCa ht with hgoal | ⟨g', hg', hΦ⟩
    · -- a goal that has been reached stays reached
      exact Or.inl ((Run.AllStates.of_inv hkeep hgoal hCas).exec hts)
    · refine (ih hg' hCas hts).imp_right ?_
      rintro ⟨g'', hg'', hΦ'⟩
      refine ⟨g'', hg'', ?_⟩
      rw [List.map_cons, List.sum_cons]
      omega

end Rotation
end LeadPulse
