import Mathlib.Algebra.GroupWithZero.Nat
import Mathlib.Data.List.Perm.Basic
import Mathlib.Tactic.Common

/-!
# A pool of workers

Workers are kept in a list: a new one goes to the end, and a step of one of them replaces it in
its place or takes it out. Two kinds of facts are kept along such steps: what holds of each worker
(`Each`) or of one of them, and what the workers come to together (`held`, one thing for each worker
that holds something, just how many do, or a sum). Two pools are compared worker by worker.
-/

namespace LeadPulse
namespace Pool

variable {α β : Type*} {P Q : α → Prop} {hold : α → Option β} {pool : List α} {a b : α} {i : ℕ}

/-- `P` holds of each worker. -/
def Each (P : α → Prop) (pool : List α) : Prop := ∀ a ∈ pool, P a

theorem Each.nil : Each P ([] : List α) := by
  intro a ha
  cases ha

theorem Each.mono (h : Each P pool) (hPQ : ∀ a, P a → Q a) : Each Q pool :=
  fun a ha => hPQ a (h a ha)

theorem Each.append (h : Each P pool) (ha : P a) : Each P (pool ++ [a]) := by
  intro b hb
  rcases List.mem_append.mp hb with hb | hb
  · exact h b hb
  · obtain rfl := List.mem_singleton.mp hb
    exact ha

theorem Each.set (h : Each P pool) (ha : P a) : Each P (pool.set i a) := by
  intro b hb
  rcases List.mem_or_eq_of_mem_set hb with hb | rfl
  · exact h b hb
  · exact ha

/-- A worker with `P` is still there after a step of another one, or of one that keeps `P`. -/
theorem exists_set (h : ∃ c ∈ pool, P c) (hi : pool[i]? = some a) (hkeep : P a → P b) :
    ∃ c ∈ pool.set i b, P c := by
  obtain ⟨c, hc, hP⟩ := h
  obtain ⟨j, hj⟩ := List.mem_iff_getElem?.mp hc
  have hlt := (List.getElem?_eq_some_iff.mp hi).1
  by_cases hij : i = j
  · rw [← hij, hi] at hj
    obtain rfl := Option.some.inj hj
    exact ⟨b, List.mem_set hlt b, hkeep hP⟩
  · refine ⟨c, List.mem_of_getElem? (i := j) ?_, hP⟩
    rw [List.getElem?_set_ne hij]
    exact hj

theorem Each.get (h : Each P pool) (hi : pool[i]? = some a) : P a :=
  h a (List.mem_of_getElem? hi)

/-- What the workers hold. -/
def held (hold : α → Option β) (pool : List α) : List β := pool.filterMap hold

theorem held_append : held hold (pool ++ [a]) = held hold pool ++ (hold a).toList := by
  unfold held
  rw [List.filterMap_append]
  cases h : hold a with
  | none => simp [h]
  | some b => simp [h]

theorem held_cons : held hold (a :: pool) = (hold a).toList ++ held hold pool := by
  unfold held
  rw [List.filterMap_cons]
  cases hold a with
  | none => rfl
  | some b => rfl

/-- Before and after a step of a worker: the others hold what they held. -/
theorem held_set (hold : α → Option β) (b : α) (h : pool[i]? = some a) : ∃ rest,
    (held hold pool).Perm ((hold a).toList ++ rest) ∧
      (held hold (pool.set i b)).Perm ((hold b).toList ++ rest) := by
  obtain ⟨hi, rfl⟩ := List.getElem?_eq_some_iff.mp h
  refine ⟨held hold (pool.eraseIdx i), ?_, ?_⟩
  · rw [← held_cons]
    exact ((List.getElem_cons_eraseIdx_perm hi).symm).filterMap hold
  · rw [← held_cons]
    exact (List.set_perm_cons_eraseIdx hi b).filterMap hold

/-! ## Two pools of the same workers -/

section

variable {R : α → β → Prop} {pool' : List β} {c : β}

theorem forall₂_get (h : List.Forall₂ R pool pool') (hi : pool'[i]? = some c) :
    ∃ a, pool[i]? = some a ∧ R a c := by
  induction h generalizing i with
  | nil => cases hi
  | cons hR _ ih =>
    cases i with
    | zero =>
      obtain rfl := Option.some.inj hi
      exact ⟨_, rfl, hR⟩
    | succ i => exact ih hi

theorem forall₂_set (h : List.Forall₂ R pool pool') (hi : pool[i]? = some a) (hR : R a c) :
    List.Forall₂ R pool (pool'.set i c) := by
  induction h generalizing i with
  | nil => cases hi
  | cons hb hrest ih =>
    cases i with
    | zero =>
      obtain rfl := Option.some.inj hi
      exact .cons hR hrest
    | succ i => exact .cons hb (ih hi)

theorem forall₂_get_left (h : List.Forall₂ R pool pool') (hi : pool[i]? = some a) :
    ∃ c, pool'[i]? = some c ∧ R a c := by
  induction h generalizing i with
  | nil => cases hi
  | cons hR _ ih =>
    cases i with
    | zero =>
      obtain rfl := Option.some.inj hi
      exact ⟨_, rfl, hR⟩
    | succ i => exact ih hi

/-- A step of both. -/
theorem forall₂_set_both (h : List.Forall₂ R pool pool') (hR : R a c) :
    List.Forall₂ R (pool.set i a) (pool'.set i c) := by
  induction h generalizing i with
  | nil => exact .nil
  | cons hb hrest ih =>
    cases i with
    | zero => exact .cons hR hrest
    | succ i => exact .cons hb ih

/-- Where the relation leaves a worker one state only, the second pool is computed. -/
theorem forall₂_eq_map {f : α → β} (h : List.Forall₂ R pool pool')
    (heq : ∀ a, ∀ c ∈ pool', R a c → c = f a) : pool' = pool.map f := by
  induction h with
  | nil => rfl
  | @cons a c _ _ hR _ ih =>
    have hrest := ih fun a' c' hc => heq a' c' (List.mem_cons_of_mem c hc)
    rw [List.map_cons, ← heq a c List.mem_cons_self hR, ← hrest]

end

/-! ## How many workers do something -/

/-- With and without one of the workers. -/
theorem countP_eraseIdx (q : α → Bool) (h : pool[i]? = some a) :
    pool.countP q = (pool.eraseIdx i).countP q + if q a then 1 else 0 := by
  obtain ⟨hi, rfl⟩ := List.getElem?_eq_some_iff.mp h
  rw [← (List.getElem_cons_eraseIdx_perm hi).countP_eq q, List.countP_cons]

/-- Before and after a step of one of the workers. -/
theorem countP_set (q : α → Bool) (b : α) (h : pool[i]? = some a) :
    (pool.set i b).countP q + (if q a then 1 else 0) = pool.countP q + if q b then 1 else 0 := by
  have hi := (List.getElem?_eq_some_iff.mp h).1
  rw [countP_eraseIdx q h, (List.set_perm_cons_eraseIdx hi b).countP_eq q, List.countP_cons]
  omega

/-- The sum over all workers, before and after a step of one of them. -/
theorem sum_set (f : α → ℕ) (b : α) (h : pool[i]? = some a) :
    ((pool.set i b).map f).sum + f a = (pool.map f).sum + f b := by
  obtain ⟨hi, rfl⟩ := List.getElem?_eq_some_iff.mp h
  rw [((List.set_perm_cons_eraseIdx hi b).map f).sum_nat,
    ← ((List.getElem_cons_eraseIdx_perm hi).map f).sum_nat, List.map_cons, List.map_cons,
    List.sum_cons, List.sum_cons]
  omega

end Pool
end LeadPulse
