import Mathlib.Data.List.Basic
import Mathlib.Tactic.Common

/-!
# Reading a list in pages

A remote list is read page by page, `size` rows at a time; a page with fewer rows is the last
one.

* `findInPages` looks for a row in the first `n` pages: it finds what a search in the first
  `n * size` rows finds (`findInPages_eq`);
* `allPages` reads pages until the last one: it gets the whole list (`allPages_eq`);
* `firstByKey` keeps the first row of each key, as `setdefault` on a dictionary does: looking
  up a key finds the first row of the list with that key (`lookup_firstByKey`).
-/

namespace LeadPulse
namespace Paging

variable {α κ : Type*} {size : ℕ} {p : α → Bool} {rows : List α} {n k : ℕ}

/-- The page with the number `k`, from zero. -/
def page (size : ℕ) (rows : List α) (k : ℕ) : List α := (rows.drop (k * size)).take size

/-- A search in at most `n` pages from page `k` on. -/
def findInPages (size : ℕ) (p : α → Bool) (rows : List α) : ℕ → ℕ → Option α
  | 0, _ => none
  | n + 1, k =>
    if (page size rows k).isEmpty then none
    else match (page size rows k).find? p with
      | some r => some r
      | none =>
        if (page size rows k).length < size then none else findInPages size p rows n (k + 1)

/-- All rows from page `k` on, if at most `n` pages are left. -/
def pagesFrom (size : ℕ) (rows : List α) : ℕ → ℕ → List α
  | 0, _ => []
  | n + 1, k =>
    page size rows k ++
      if (page size rows k).length < size then [] else pagesFrom size rows n (k + 1)

/-- The pages up to the last one; there are at most as many as rows, and one. -/
def allPages (size : ℕ) (rows : List α) : List α := pagesFrom size rows (rows.length + 1) 0

/-! ## Pages -/

theorem drop_page (size : ℕ) (rows : List α) (k : ℕ) :
    rows.drop (k * size) = page size rows k ++ rows.drop ((k + 1) * size) := by
  unfold page
  rw [Nat.succ_mul, ← List.drop_drop, List.take_append_drop]

/-- The first rows from page `k` on are that page and the first rows after it. -/
theorem take_drop_page (size : ℕ) (rows : List α) (n k : ℕ) :
    (rows.drop (k * size)).take ((n + 1) * size) =
      page size rows k ++ (rows.drop ((k + 1) * size)).take (n * size) := by
  unfold page
  rw [Nat.succ_mul n, Nat.add_comm, List.take_add, List.drop_drop, Nat.succ_mul k]

/-- After a page that is not full there are no rows. -/
theorem drop_of_length_page (h : (page size rows k).length < size) :
    rows.drop ((k + 1) * size) = [] := by
  unfold page at h
  rw [List.length_take, List.length_drop] at h
  rw [List.drop_eq_nil_iff, Nat.succ_mul]
  omega

theorem findInPages_eq (hsize : 0 < size) (p : α → Bool) (rows : List α) (n k : ℕ) :
    findInPages size p rows n k = ((rows.drop (k * size)).take (n * size)).find? p := by
  induction n generalizing k with
  | zero => simp [findInPages]
  | succ n ih =>
    rw [take_drop_page, List.find?_append, findInPages, ih]
    split
    · -- an empty page is not full
      next hempty =>
      have hnil : page size rows k = [] := List.isEmpty_iff.mp hempty
      have hshort : (page size rows k).length < size := by
        rw [hnil]
        exact hsize
      rw [hnil, drop_of_length_page hshort, List.take_nil]
      rfl
    · cases (page size rows k).find? p with
      | some r => rfl
      | none =>
        rw [Option.none_or]
        dsimp only
        split
        · next hshort =>
          rw [drop_of_length_page hshort, List.take_nil]
          rfl
        · rfl

theorem pagesFrom_eq (h : rows.length < (n + k) * size) :
    pagesFrom size rows n k = rows.drop (k * size) := by
  induction n generalizing k with
  | zero =>
    rw [Nat.zero_add] at h
    exact (List.drop_eq_nil_iff.mpr (Nat.le_of_lt h)).symm
  | succ n ih =>
    rw [pagesFrom, drop_page]
    congr 1
    split
    · next hshort => exact (drop_of_length_page hshort).symm
    · apply ih
      have hadd : n + (k + 1) = n + 1 + k := by omega
      rw [hadd]
      exact h

theorem allPages_eq (hsize : 0 < size) (rows : List α) : allPages size rows = rows := by
  have hlt : rows.length < (rows.length + 1 + 0) * size :=
    calc rows.length < rows.length + 1 := Nat.lt_succ_self _
      _ ≤ (rows.length + 1) * size := Nat.le_mul_of_pos_right _ hsize
  have h := pagesFrom_eq hlt
  rw [Nat.zero_mul, List.drop_zero] at h
  exact h

/-! ## The first row of each key -/

variable [BEq κ]

/-- `d.setdefault(key(r), r)` for the rows in their order. -/
def firstByKey (key : α → κ) (d : List (κ × α)) : List α → List (κ × α)
  | [] => d
  | r :: rows =>
    firstByKey key (if (d.lookup (key r)).isSome then d else d ++ [(key r, r)]) rows

variable [LawfulBEq κ] [DecidableEq κ]

theorem lookup_concat (d : List (κ × α)) (x y : κ) (r : α) :
    (d ++ [(x, r)]).lookup y = (d.lookup y).or (if x = y then some r else none) := by
  rw [List.lookup_append]
  congr 1
  by_cases h : x = y
  · subst h
    simp
  · have hne : (y == x) = false := by
      rw [beq_eq_false_iff_ne]
      exact fun he => h he.symm
    rw [if_neg h, List.lookup_cons, hne]
    rfl

theorem lookup_firstByKey_from (key : α → κ) (d : List (κ × α)) (rows : List α) (x : κ) :
    (firstByKey key d rows).lookup x = (d.lookup x).or (rows.find? fun r => key r = x) := by
  induction rows generalizing d with
  | nil => rw [firstByKey, List.find?_nil, Option.or_none]
  | cons r rows ih =>
    rw [firstByKey, ih, List.find?_cons]
    by_cases hx : key r = x
    · subst hx
      cases hd : d.lookup (key r) with
      | some r' => simp [hd]
      | none => simp [hd, lookup_concat]
    · cases hd : (d.lookup (key r)).isSome with
      | true => simp [hx]
      | false => simp [lookup_concat, hx]

theorem lookup_firstByKey (key : α → κ) (rows : List α) (x : κ) :
    (firstByKey key [] rows).lookup x = rows.find? fun r => key r = x := by
  rw [lookup_firstByKey_from]
  rfl

end Paging
end LeadPulse
