import Mathlib.Data.List.Basic
import Mathlib.Data.List.Pairwise
import Mathlib.Data.List.Perm.Basic
import Mathlib.Tactic.Common

/-!
# Rows with keys that have not been seen

A loop that goes through rows with a set of keys at hand. A row whose key is in the set is
passed over; any other row is taken, and its key joins the set. A row may have no key, and
is taken then.

* `unseen key seen rows` are the rows that are taken, `repeated key seen rows` the ones that
  are passed over;
* `mem_repeated_iff` says which rows are passed over without running the loop;
* `exists_of_mem_repeated`: for each of them a row of the same key has been there, or its key
  was seen before the loop;
* `pairwise_unseen`, `not_mem_seen`: the keys of the rows that are taken are new and all
  different.
-/

namespace LeadPulse
namespace Unseen

variable {α κ : Type*} [DecidableEq κ] {key : α → Option κ} {seen : List κ} {rows : List α}
  {r s : α} {k : κ}

/-- The rows that are taken. -/
def unseen (key : α → Option κ) : List κ → List α → List α
  | _, [] => []
  | seen, r :: rows => match key r with
    | none => r :: unseen key seen rows
    | some k => if k ∈ seen then unseen key seen rows else r :: unseen key (k :: seen) rows

/-- The rows that are passed over. -/
def repeated (key : α → Option κ) : List κ → List α → List α
  | _, [] => []
  | seen, r :: rows => match key r with
    | none => repeated key seen rows
    | some k => if k ∈ seen then r :: repeated key seen rows else repeated key (k :: seen) rows

@[simp] theorem unseen_nil : unseen key seen [] = [] := rfl

@[simp] theorem repeated_nil : repeated key seen [] = [] := rfl

theorem unseen_of_none (h : key r = none) :
    unseen key seen (r :: rows) = r :: unseen key seen rows := by
  simp only [unseen, h]

theorem unseen_of_mem (h : key r = some k) (hk : k ∈ seen) :
    unseen key seen (r :: rows) = unseen key seen rows := by
  simp only [unseen, h, if_pos hk]

theorem unseen_of_not_mem (h : key r = some k) (hk : k ∉ seen) :
    unseen key seen (r :: rows) = r :: unseen key (k :: seen) rows := by
  simp only [unseen, h, if_neg hk]

theorem repeated_of_none (h : key r = none) :
    repeated key seen (r :: rows) = repeated key seen rows := by
  simp only [repeated, h]

theorem repeated_of_mem (h : key r = some k) (hk : k ∈ seen) :
    repeated key seen (r :: rows) = r :: repeated key seen rows := by
  simp only [repeated, h, if_pos hk]

theorem repeated_of_not_mem (h : key r = some k) (hk : k ∉ seen) :
    repeated key seen (r :: rows) = repeated key (k :: seen) rows := by
  simp only [repeated, h, if_neg hk]

/-- The three turns that the loop can take at a row. -/
theorem turn (key : α → Option κ) (seen : List κ) (r : α) :
    key r = none ∨ (∃ k, key r = some k ∧ k ∈ seen) ∨ (∃ k, key r = some k ∧ k ∉ seen) := by
  cases h : key r with
  | none => exact Or.inl rfl
  | some k =>
    by_cases hk : k ∈ seen
    · exact Or.inr (Or.inl ⟨k, rfl, hk⟩)
    · exact Or.inr (Or.inr ⟨k, rfl, hk⟩)

/-! ## Every row is taken or passed over -/

theorem perm_unseen_repeated (key : α → Option κ) (seen : List κ) (rows : List α) :
    (unseen key seen rows ++ repeated key seen rows).Perm rows := by
  induction rows generalizing seen with
  | nil => exact List.Perm.refl []
  | cons r rows ih =>
    rcases turn key seen r with h | ⟨k, h, hk⟩ | ⟨k, h, hk⟩
    · rw [unseen_of_none h, repeated_of_none h]
      exact (ih seen).cons r
    · rw [unseen_of_mem h hk, repeated_of_mem h hk]
      exact List.perm_middle.trans ((ih seen).cons r)
    · rw [unseen_of_not_mem h hk, repeated_of_not_mem h hk]
      exact (ih (k :: seen)).cons r

theorem mem_unseen_or_repeated (key : α → Option κ) (seen : List κ) (hr : r ∈ rows) :
    r ∈ unseen key seen rows ∨ r ∈ repeated key seen rows := by
  have hperm := perm_unseen_repeated key seen rows
  exact List.mem_append.mp (hperm.mem_iff.mpr hr)

theorem mem_of_mem_unseen (h : r ∈ unseen key seen rows) : r ∈ rows :=
  (perm_unseen_repeated key seen rows).mem_iff.mp (List.mem_append_left _ h)

theorem mem_of_mem_repeated (h : r ∈ repeated key seen rows) : r ∈ rows :=
  (perm_unseen_repeated key seen rows).mem_iff.mp (List.mem_append_right _ h)

/-! ## The rows that are passed over -/

/-- A row is passed over exactly if its key was there from the beginning or is the key of an
earlier row. -/
theorem mem_repeated_iff : r ∈ repeated key seen rows ↔
    ∃ k l₁ l₂, rows = l₁ ++ r :: l₂ ∧ key r = some k ∧
      (k ∈ seen ∨ ∃ s ∈ l₁, key s = some k) := by
  induction rows generalizing seen with
  | nil => simp
  | cons t rows ih =>
    constructor
    · intro hr
      rcases turn key seen t with h | ⟨k, h, hk⟩ | ⟨k, h, hk⟩
      · rw [repeated_of_none h] at hr
        obtain ⟨k', l₁, l₂, rfl, hkey, hor⟩ := ih.mp hr
        refine ⟨k', t :: l₁, l₂, rfl, hkey, hor.imp_right ?_⟩
        rintro ⟨s, hs, hks⟩
        exact ⟨s, List.mem_cons_of_mem t hs, hks⟩
      · rw [repeated_of_mem h hk, List.mem_cons] at hr
        rcases hr with rfl | hr
        · exact ⟨k, [], rows, rfl, h, Or.inl hk⟩
        · obtain ⟨k', l₁, l₂, rfl, hkey, hor⟩ := ih.mp hr
          refine ⟨k', t :: l₁, l₂, rfl, hkey, hor.imp_right ?_⟩
          rintro ⟨s, hs, hks⟩
          exact ⟨s, List.mem_cons_of_mem t hs, hks⟩
      · rw [repeated_of_not_mem h hk] at hr
        obtain ⟨k', l₁, l₂, rfl, hkey, hor⟩ := ih.mp hr
        refine ⟨k', t :: l₁, l₂, rfl, hkey, ?_⟩
        rcases hor with hseen | ⟨s, hs, hks⟩
        · -- the key of this very row has joined the set
          rcases List.mem_cons.mp hseen with rfl | hseen
          · exact Or.inr ⟨t, List.mem_cons_self, h⟩
          · exact Or.inl hseen
        · exact Or.inr ⟨s, List.mem_cons_of_mem t hs, hks⟩
    · rintro ⟨k', l₁, l₂, hrows, hkey, hor⟩
      cases l₁ with
      | nil =>
        obtain ⟨rfl, rfl⟩ := List.cons.inj hrows
        have hk : k' ∈ seen := by simpa using hor
        rw [repeated_of_mem hkey hk]
        exact List.mem_cons_self
      | cons u l₁ =>
        obtain ⟨rfl, rfl⟩ := List.cons.inj hrows
        have hrest {seen' : List κ} (hsub : k' ∈ seen' ∨ ∃ s ∈ l₁, key s = some k') :
            r ∈ repeated key seen' (l₁ ++ r :: l₂) :=
          ih.mpr ⟨k', l₁, l₂, rfl, hkey, hsub⟩
        rcases turn key seen t with h | ⟨k, h, hk⟩ | ⟨k, h, hk⟩
        · rw [repeated_of_none h]
          apply hrest
          refine hor.imp_right ?_
          rintro ⟨s, hs, hks⟩
          rcases List.mem_cons.mp hs with rfl | hs
          · rw [h] at hks
            cases hks
          · exact ⟨s, hs, hks⟩
        · rw [repeated_of_mem h hk]
          apply List.mem_cons_of_mem
          apply hrest
          rcases hor with hseen | ⟨s, hs, hks⟩
          · exact Or.inl hseen
          · rcases List.mem_cons.mp hs with rfl | hs
            · rw [h] at hks
              cases hks
              exact Or.inl hk
            · exact Or.inr ⟨s, hs, hks⟩
        · rw [repeated_of_not_mem h hk]
          apply hrest
          rcases hor with hseen | ⟨s, hs, hks⟩
          · exact Or.inl (List.mem_cons_of_mem k hseen)
          · rcases List.mem_cons.mp hs with rfl | hs
            · rw [h] at hks
              cases hks
              exact Or.inl List.mem_cons_self
            · exact Or.inr ⟨s, hs, hks⟩

/-- What is passed over is there already, or among the rows that are taken. -/
theorem exists_of_mem_repeated (h : r ∈ repeated key seen rows) :
    ∃ k, key r = some k ∧ (k ∈ seen ∨ ∃ s ∈ unseen key seen rows, key s = some k) := by
  induction rows generalizing seen with
  | nil => cases h
  | cons t rows ih =>
    rcases turn key seen t with ht | ⟨k, ht, hk⟩ | ⟨k, ht, hk⟩
    · rw [repeated_of_none ht] at h
      obtain ⟨k', hkey, hor⟩ := ih h
      rw [unseen_of_none ht]
      refine ⟨k', hkey, hor.imp_right ?_⟩
      rintro ⟨s, hs, hks⟩
      exact ⟨s, List.mem_cons_of_mem t hs, hks⟩
    · rw [repeated_of_mem ht hk, List.mem_cons] at h
      rw [unseen_of_mem ht hk]
      rcases h with rfl | h
      · exact ⟨k, ht, Or.inl hk⟩
      · exact ih h
    · rw [repeated_of_not_mem ht hk] at h
      rw [unseen_of_not_mem ht hk]
      obtain ⟨k', hkey, hor⟩ := ih h
      refine ⟨k', hkey, ?_⟩
      rcases hor with hseen | ⟨s, hs, hks⟩
      · rcases List.mem_cons.mp hseen with rfl | hseen
        · exact Or.inr ⟨t, List.mem_cons_self, ht⟩
        · exact Or.inl hseen
      · exact Or.inr ⟨s, List.mem_cons_of_mem t hs, hks⟩

/-! ## The rows that are taken -/

/-- The loop takes no key that has been seen. -/
theorem not_mem_seen (h : r ∈ unseen key seen rows) (hk : key r = some k) : k ∉ seen := by
  induction rows generalizing seen with
  | nil => cases h
  | cons t rows ih =>
    rcases turn key seen t with ht | ⟨k', ht, hk'⟩ | ⟨k', ht, hk'⟩
    · rw [unseen_of_none ht, List.mem_cons] at h
      rcases h with rfl | h
      · rw [ht] at hk
        cases hk
      · exact ih h
    · rw [unseen_of_mem ht hk'] at h
      exact ih h
    · rw [unseen_of_not_mem ht hk', List.mem_cons] at h
      rcases h with rfl | h
      · rw [ht] at hk
        cases hk
        exact hk'
      · exact fun hmem => ih h (List.mem_cons_of_mem k' hmem)

/-- No key is taken twice. -/
theorem pairwise_unseen (key : α → Option κ) (seen : List κ) (rows : List α) :
    (unseen key seen rows).Pairwise fun r s => ∀ k, key r = some k → key s ≠ some k := by
  induction rows generalizing seen with
  | nil => exact List.Pairwise.nil
  | cons t rows ih =>
    rcases turn key seen t with ht | ⟨k, ht, hk⟩ | ⟨k, ht, hk⟩
    · rw [unseen_of_none ht]
      refine List.Pairwise.cons (fun s _ k hk => ?_) (ih seen)
      rw [ht] at hk
      cases hk
    · rw [unseen_of_mem ht hk]
      exact ih seen
    · rw [unseen_of_not_mem ht hk]
      refine List.Pairwise.cons (fun s hs k' hk' => ?_) (ih (k :: seen))
      rw [ht] at hk'
      cases hk'
      intro hsk
      exact not_mem_seen hs hsk List.mem_cons_self

/-- Rows that are taken and share a key are the same row. -/
theorem eq_of_key (hr : r ∈ unseen key seen rows) (hs : s ∈ unseen key seen rows)
    (hkr : key r = some k) (hks : key s = some k) : r = s := by
  by_contra hne
  have hsymm : (unseen key seen rows).Pairwise fun r s =>
      ∀ k, ¬ (key r = some k ∧ key s = some k) :=
    (pairwise_unseen key seen rows).imp fun h k hk => h k hk.1 hk.2
  have : Std.Symm fun r s : α => ∀ k, ¬ (key r = some k ∧ key s = some k) :=
    ⟨fun _ _ h k hk => h k hk.symm⟩
  exact hsymm.forall hr hs hne k ⟨hkr, hks⟩

/-! ## A second time -/

/-- Nothing is taken exactly if all keys have been seen. -/
theorem unseen_eq_nil_iff :
    unseen key seen rows = [] ↔ ∀ r ∈ rows, ∃ k, key r = some k ∧ k ∈ seen := by
  induction rows generalizing seen with
  | nil => simp
  | cons t rows ih =>
    rw [List.forall_mem_cons]
    rcases turn key seen t with ht | ⟨k, ht, hk⟩ | ⟨k, ht, hk⟩
    · rw [unseen_of_none ht]
      simp [ht]
    · rw [unseen_of_mem ht hk, ih]
      exact (and_iff_right ⟨k, ht, hk⟩).symm
    · rw [unseen_of_not_mem ht hk]
      simp [ht, hk]

/-- A row without a key is always taken. -/
theorem mem_unseen_of_none (hr : r ∈ rows) (h : key r = none) : r ∈ unseen key seen rows := by
  refine (mem_unseen_or_repeated key seen hr).resolve_right fun hrepeated => ?_
  obtain ⟨k, hk, -⟩ := exists_of_mem_repeated hrepeated
  rw [h] at hk
  cases hk

/-- What is taken when all keys have been seen has been taken before. -/
theorem mem_unseen_of_again {seen' : List κ}
    (hseen : ∀ r ∈ rows, ∀ k, key r = some k → k ∈ seen') (hr : r ∈ unseen key seen' rows) :
    r ∈ unseen key seen rows := by
  have hmem := mem_of_mem_unseen hr
  refine mem_unseen_of_none hmem (Option.eq_none_iff_forall_ne_some.mpr fun k hk => ?_)
  exact not_mem_seen hr hk (hseen r hmem k hk)

/-- All rows are taken if their keys are new and all different. -/
theorem unseen_eq_self (hnew : ∀ r ∈ rows, ∀ k, key r = some k → k ∉ seen)
    (hpair : rows.Pairwise fun r s => ∀ k, key r = some k → key s ≠ some k) :
    unseen key seen rows = rows := by
  induction rows generalizing seen with
  | nil => rfl
  | cons t rows ih =>
    obtain ⟨hfirst, hrest⟩ := List.pairwise_cons.mp hpair
    rw [List.forall_mem_cons] at hnew
    rcases turn key seen t with ht | ⟨k, ht, hk⟩ | ⟨k, ht, hk⟩
    · rw [unseen_of_none ht, ih hnew.2 hrest]
    · exact absurd hk (hnew.1 k ht)
    · rw [unseen_of_not_mem ht hk, ih _ hrest]
      intro s hs k' hk'
      rw [List.mem_cons]
      rintro (rfl | hseen)
      · exact hfirst s hs k' ht hk'
      · exact hnew.2 s hs k' hk' hseen

/-- The keys that are there after the loop. -/
theorem keys_unseen : (k ∈ seen ∨ ∃ r ∈ unseen key seen rows, key r = some k) ↔
    k ∈ seen ∨ ∃ r ∈ rows, key r = some k := by
  constructor
  · rintro (hseen | ⟨r, hr, hk⟩)
    · exact Or.inl hseen
    · exact Or.inr ⟨r, mem_of_mem_unseen hr, hk⟩
  · rintro (hseen | ⟨r, hr, hk⟩)
    · exact Or.inl hseen
    · rcases mem_unseen_or_repeated key seen hr with htaken | hpassed
      · exact Or.inr ⟨r, htaken, hk⟩
      · obtain ⟨k', hk', hor⟩ := exists_of_mem_repeated hpassed
        obtain rfl := Option.some.inj (hk'.symm.trans hk)
        exact hor

end Unseen
end LeadPulse
