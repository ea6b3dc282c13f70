import Mathlib.Data.List.Basic
import Mathlib.Order.Lattice
import Mathlib.Tactic.Common

/-!
# Passes that can be taken up again

A pass goes through a list of items and lets each of them change a state. If what an item has done
is still there later on, and then it does nothing more (`Absorbing`), a pass that breaks off can
simply be started again: `foldl_stops` for passes that stop anywhere, `capped_add` for passes that
stop after a number of changes.
-/

namespace LeadPulse
namespace Resume

variable {S A : Type*} {le : S → S → Prop} {f : S → A → S}

/-- What an item has done lasts, and as long as it lasts the item does nothing. -/
structure Absorbing (le : S → S → Prop) (f : S → A → S) : Prop where
  refl : ∀ s, le s s
  trans : ∀ {s t u}, le s t → le t u → le s u
  le_step : ∀ s a, le s (f s a)
  absorbed : ∀ {s a t}, le (f s a) t → f t a = t

namespace Absorbing

variable (h : Absorbing le f) {s t : S} {a : A}

include h

theorem le_foldl (s : S) (l : List A) : le s (l.foldl f s) := by
  induction l generalizing s with
  | nil => exact h.refl s
  | cons a l ih => exact h.trans (h.le_step s a) (ih (f s a))

/-- A pass over items that have all been dealt with. -/
theorem foldl_absorbed {l : List A} (ht : le (l.foldl f s) t) : l.foldl f t = t := by
  induction l generalizing s with
  | nil => rfl
  | cons a l ih =>
    have ha : f t a = t := h.absorbed (h.trans (h.le_foldl (f s a) l) ht)
    rw [List.foldl_cons, ha]
    exact ih ht

/-- A second pass, over another part of the list. -/
theorem foldl_take_max (s : S) (l : List A) (j n : ℕ) :
    (l.take n).foldl f ((l.take j).foldl f s) = (l.take (max j n)).foldl f s := by
  rcases Nat.le_total n j with hle | hle
  · rw [Nat.max_eq_left hle]
    have htake : l.take j = l.take n ++ (l.drop n).take (j - n) := by
      rw [← List.take_add, Nat.add_sub_cancel' hle]
    refine h.foldl_absorbed (s := s) ?_
    rw [htake, List.foldl_append]
    exact h.le_foldl _ _
  · rw [Nat.max_eq_right hle]
    have htake : l.take n = l.take j ++ (l.drop j).take (n - j) := by
      rw [← List.take_add, Nat.add_sub_cancel' hle]
    rw [htake, List.foldl_append, List.foldl_append, h.foldl_absorbed (h.refl _)]

/-- Passes that stop anywhere come as far as the one that came furthest. -/
theorem foldl_stops (s : S) (l : List A) (stops : List ℕ) :
    stops.foldl (fun s n => (l.take n).foldl f s) s = (l.take (stops.foldl max 0)).foldl f s := by
  have hgo (j : ℕ) : stops.foldl (fun s n => (l.take n).foldl f s) ((l.take j).foldl f s) =
      (l.take (stops.foldl max j)).foldl f s := by
    induction stops generalizing j with
    | nil => rfl
    | cons n stops ih => rw [List.foldl_cons, h.foldl_take_max, ih, List.foldl_cons]
  exact hgo 0

end Absorbing

/-! ## Passes with a budget -/

section Capped

variable [DecidableEq S]

/-- A pass that stops after `c` changes. -/
def capped (f : S → A → S) : ℕ → S → List A → S
  | 0, s, _ => s
  | _ + 1, s, [] => s
  | c + 1, s, a :: l => if f s a = s then capped f (c + 1) s l else capped f c (f s a) l

theorem capped_nil (c : ℕ) (s : S) : capped f c s [] = s := by
  cases c <;> rfl

/-- An item that changes nothing costs nothing. -/
theorem capped_cons_of_eq {s : S} {a : A} (ha : f s a = s) (c : ℕ) (l : List A) :
    capped f c s (a :: l) = capped f c s l := by
  cases c with
  | zero => cases l <;> rfl
  | succ c => rw [capped, if_pos ha]

theorem capped_cons_of_ne {s : S} {a : A} (ha : f s a ≠ s) (c : ℕ) (l : List A) :
    capped f (c + 1) s (a :: l) = capped f c (f s a) l := by
  rw [capped, if_neg ha]

namespace Absorbing

variable (h : Absorbing le f)

include h

theorem le_capped (c : ℕ) (s : S) (l : List A) : le s (capped f c s l) := by
  induction l generalizing c s with
  | nil =>
    rw [capped_nil]
    exact h.refl s
  | cons a l ih =>
    cases c with
    | zero => exact h.refl s
    | succ c =>
      by_cases ha : f s a = s
      · rw [capped_cons_of_eq ha]
        exact ih (c + 1) s
      · rw [capped_cons_of_ne ha]
        exact h.trans (h.le_step s a) (ih c (f s a))

/-- Two passes, one after the other, make as many changes as one with both budgets. -/
theorem capped_add (c d : ℕ) (s : S) (l : List A) :
    capped f d (capped f c s l) l = capped f (c + d) s l := by
  induction l generalizing c s with
  | nil => rw [capped_nil, capped_nil, capped_nil]
  | cons a l ih =>
    cases c with
    | zero => rw [Nat.zero_add, capped]
    | succ c =>
      by_cases ha : f s a = s
      · have hdone : f (capped f (c + 1) s l) a = capped f (c + 1) s l := by
          refine h.absorbed (s := s) ?_
          rw [ha]
          exact h.le_capped (c + 1) s l
        rw [capped_cons_of_eq ha, capped_cons_of_eq hdone, ih, capped_cons_of_eq ha]
      · have hdone : f (capped f c (f s a) l) a = capped f c (f s a) l :=
          h.absorbed (h.le_capped c (f s a) l)
        rw [capped_cons_of_ne ha, capped_cons_of_eq hdone, ih, Nat.add_right_comm,
          capped_cons_of_ne ha]

end Absorbing

end Capped

end Resume
end LeadPulse
