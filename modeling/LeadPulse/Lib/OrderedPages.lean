import LeadPulse.Lib.Paging
import Mathlib.Data.List.Nodup
import Mathlib.Data.List.Perm.Basic
import Mathlib.Order.Lattice

/-!
# Pages of a query that sorts

A database sorts the rows of a query with `ORDER BY` and returns a page of them. Rows that the
order does not tell apart come in any order, and in a different one for each page: the pages are
cut from different answers.

* `SortOrder` is an order to sort by, built up with `asc`, `reverse`, `onKey`, `nullsLast`,
  `nullsFirst` and `thenBy`;
* `SortedAs o rows s`: the database may sort the rows to `s`;
* `CoversOnce o size rows`: whatever the answers, the pages read one after the other hold every
  row once;
* `coversOnce_of_unique`: they do if the order tells any two rows apart;
* `coversOnce_iff`: and otherwise exactly if no page ends between two rows that it does not tell
  apart (`Unsplit`).
-/

namespace LeadPulse
namespace Paging

/-- An order to sort by. -/
structure SortOrder (α : Type*) where
  le : α → α → Bool
  total : ∀ a b, le a b = true ∨ le b a = true
  trans : ∀ a b c, le a b = true → le b c = true → le a c = true

namespace SortOrder

variable {α κ : Type*}

theorem refl (o : SortOrder α) (a : α) : o.le a a = true := (o.total a a).elim id id

/-- Smallest first. -/
def asc [LinearOrder κ] : SortOrder κ where
  le a b := a ≤ b
  total a b := by simpa using le_total a b
  trans a b c hab hbc := by
    have hab : a ≤ b := by simpa using hab
    have hbc : b ≤ c := by simpa using hbc
    simpa using le_trans hab hbc

/-- The other way round. -/
def reverse (o : SortOrder α) : SortOrder α where
  le a b := o.le b a
  total a b := o.total b a
  trans a b c hab hbc := o.trans c b a hbc hab

/-- Rows by one of their columns. -/
def onKey (key : α → κ) (o : SortOrder κ) : SortOrder α where
  le a b := o.le (key a) (key b)
  total a b := o.total (key a) (key b)
  trans a b c := o.trans (key a) (key b) (key c)

/-- `NULLS LAST` -/
def nullsLast (o : SortOrder κ) : SortOrder (Option κ) where
  le
    | _, none => true
    | none, some _ => false
    | some a, some b => o.le a b
  total
    | _, none => Or.inl (by simp)
    | none, some _ => Or.inr rfl
    | some a, some b => o.total a b
  trans
    | _, _, none => by simp
    | _, none, some _ => by simp
    | none, some _, some _ => by simp
    | some a, some b, some c => o.trans a b c

/-- `NULLS FIRST` -/
def nullsFirst (o : SortOrder κ) : SortOrder (Option κ) where
  le
    | none, _ => true
    | some _, none => false
    | some a, some b => o.le a b
  total
    | none, _ => Or.inl rfl
    | some _, none => Or.inr rfl
    | some a, some b => o.total a b
  trans
    | none, _, _ => by simp
    | some _, none, _ => by simp
    | some _, some _, none => by simp
    | some a, some b, some c => o.trans a b c

/-- By the one order, and by the other where it makes no difference. -/
def thenBy (o o' : SortOrder α) : SortOrder α where
  le a b := o.le a b && (!o.le b a || o'.le a b)
  total a b := by
    have h := o.total a b
    have h' := o'.total a b
    cases hab : o.le a b <;> cases hba : o.le b a <;> simp_all
  trans a b c hab hbc := by
    simp only [Bool.and_eq_true, Bool.or_eq_true, Bool.not_eq_true'] at hab hbc ⊢
    obtain ⟨hab, hab'⟩ := hab
    obtain ⟨hbc, hbc'⟩ := hbc
    refine ⟨o.trans a b c hab hbc, ?_⟩
    cases hca : o.le c a with
    | false => exact Or.inl rfl
    | true =>
      -- then the first order tells none of the three apart
      have hba := o.trans b c a hbc hca
      have hcb := o.trans c a b hca hab
      rw [hba] at hab'
      rw [hcb] at hbc'
      exact Or.inr (o'.trans a b c (hab'.resolve_left (by simp)) (hbc'.resolve_left (by simp)))

/-- Rows that a combined order does not tell apart, neither of the two tells apart. -/
theorem thenBy_le_le {o o' : SortOrder α} {a b : α} (hab : (o.thenBy o').le a b = true)
    (hba : (o.thenBy o').le b a = true) : o'.le a b = true ∧ o'.le b a = true := by
  simp only [thenBy, Bool.and_eq_true, Bool.or_eq_true, Bool.not_eq_true'] at hab hba
  obtain ⟨hab, hab'⟩ := hab
  obtain ⟨hba, hba'⟩ := hba
  rw [hba] at hab'
  rw [hab] at hba'
  exact ⟨hab'.resolve_left (by simp), hba'.resolve_left (by simp)⟩

end SortOrder

/-! ## Answers and pages -/

section

variable {α : Type*} (o : SortOrder α) (size : ℕ) (rows : List α)

/-- The rows in an order that the database may put them in. -/
structure SortedAs (s : List α) : Prop where
  perm : s.Perm rows
  sorted : s.Pairwise fun a b => o.le a b = true

/-- The first `n` pages, each of an answer of its own. -/
def readPages (answers : ℕ → List α) (n : ℕ) : List α :=
  (List.range n).flatMap fun k => page size (answers k) k

/-- Enough pages hold every row once, whatever the answers. -/
def CoversOnce : Prop :=
  ∀ answers, (∀ k, SortedAs o rows (answers k)) → ∀ n, rows.length ≤ n * size →
    (readPages size answers n).Perm rows

/-- The number of rows that must come before `r`. -/
def numBefore (r : α) : ℕ := rows.countP fun s => !o.le r s

/-- The number of rows that may come before `r`, and `r`. -/
def numThrough (r : α) : ℕ := rows.countP fun s => o.le s r

/-- No page ends between rows that are not told apart. -/
def Unsplit : Prop := ∀ r ∈ rows, ∀ k,
  k * size ≤ numBefore o rows r ∨
  numThrough o rows r ≤ k * size

end

section

variable {α : Type*} {o : SortOrder α} {size : ℕ} {rows s : List α} {r x y : α} {a b : List α}
  {i k n : ℕ}

theorem answer_mergeSort (o : SortOrder α) (rows : List α) :
    SortedAs o rows (rows.mergeSort o.le) where
  perm := List.mergeSort_perm rows o.le
  sorted := by
    refine List.pairwise_mergeSort o.trans (fun a b => ?_) rows
    rw [Bool.or_eq_true]
    exact o.total a b

/-! ## Where a row can be in an answer -/

/-- What comes from a place on does not belong before what is there. -/
theorem SortedAs.le_of_mem_drop (h : SortedAs o rows s) (hi : i < s.length) (hx : x ∈ s.drop i) :
    o.le s[i] x = true := by
  have hsorted := h.sorted.sublist (List.drop_sublist i s)
  rw [List.drop_eq_getElem_cons hi] at hx hsorted
  rcases List.mem_cons.mp hx with rfl | hx
  · exact o.refl _
  · exact (List.pairwise_cons.mp hsorted).1 x hx

theorem SortedAs.le_of_mem_take (h : SortedAs o rows s) (hi : i < s.length)
    (hx : x ∈ s.take (i + 1)) : o.le x s[i] = true := by
  have hsorted := h.sorted.sublist (List.take_sublist (i + 1) s)
  rw [List.take_succ_eq_append_getElem hi] at hx hsorted
  rcases List.mem_append.mp hx with hx | hx
  · exact (List.pairwise_append.mp hsorted).2.2 x hx _ List.mem_cons_self
  · rw [List.mem_singleton.mp hx]
    exact o.refl _

/-- Counting in the rows is counting in the answer, on both sides of a place. -/
theorem SortedAs.countP_eq (h : SortedAs o rows s) (p : α → Bool) (i : ℕ) :
    rows.countP p = (s.take i).countP p + (s.drop i).countP p := by
  rw [← h.perm.countP_eq p, ← List.countP_append, List.take_append_drop]

/-- All rows up to a place may come before the row that is there. -/
theorem SortedAs.lt_numThrough (h : SortedAs o rows s) (hi : i < s.length) :
    i < numThrough o rows s[i] := by
  have hall : (s.take (i + 1)).countP (fun x => o.le x s[i]) = (s.take (i + 1)).length :=
    List.countP_eq_length.mpr fun x hx => h.le_of_mem_take hi hx
  rw [numThrough, h.countP_eq _ (i + 1), hall, List.length_take]
  omega

/-- No row from a place on must come before the row that is there. -/
theorem SortedAs.numBefore_le (h : SortedAs o rows s) (hi : i < s.length) :
    numBefore o rows s[i] ≤ i := by
  have hnone : (s.drop i).countP (fun x => !o.le s[i] x) = 0 := by
    rw [List.countP_eq_zero]
    intro x hx
    simp [h.le_of_mem_drop hi hx]
  have hle := List.countP_le_length (p := fun x => !o.le s[i] x) (l := s.take i)
  rw [List.length_take] at hle
  rw [numBefore, h.countP_eq _ i, hnone]
  omega

/-- The places of the rows that may come before `r`, and of the rows that need not. -/
theorem SortedAs.le_of_lt_numThrough (h : SortedAs o rows s) (hi : i < s.length)
    (hlt : i < numThrough o rows r) : o.le s[i] r = true := by
  by_contra hnot
  -- otherwise there are not enough of them in front of the place
  have hnone : (s.drop i).countP (fun x => o.le x r) = 0 := by
    rw [List.countP_eq_zero]
    intro x hx hxr
    exact hnot (o.trans _ _ _ (h.le_of_mem_drop hi hx) hxr)
  have hle := List.countP_le_length (p := fun x => o.le x r) (l := s.take i)
  rw [List.length_take] at hle
  rw [numThrough, h.countP_eq _ i, hnone] at hlt
  omega

theorem SortedAs.le_of_numBefore_le (h : SortedAs o rows s) (hi : i < s.length)
    (hle : numBefore o rows r ≤ i) : o.le r s[i] = true := by
  by_contra hnot
  have hall : (s.take (i + 1)).countP (fun x => !o.le r x) = (s.take (i + 1)).length := by
    rw [List.countP_eq_length]
    intro x hx
    rw [Bool.not_eq_true']
    by_contra hrx
    exact hnot (o.trans _ _ _ (Bool.of_not_eq_false hrx) (h.le_of_mem_take hi hx))
  rw [numBefore, h.countP_eq _ (i + 1), hall, List.length_take] at hle
  omega

/-! ## Pages of one answer -/

theorem mem_page (size k : ℕ) (hi : i < s.length) (hlo : k * size ≤ i) (hhi : i < (k + 1) * size) :
    s[i] ∈ page size s k := by
  rw [Nat.succ_mul] at hhi
  have hlen : i - k * size < ((s.drop (k * size)).take size).length := by
    rw [List.length_take, List.length_drop]
    omega
  have hget : ((s.drop (k * size)).take size)[i - k * size] = s[i] := by
    rw [List.getElem_take, List.getElem_drop]
    congr 1
    omega
  show s[i] ∈ (s.drop (k * size)).take size
  rw [← hget]
  exact List.getElem_mem hlen

/-- The pages of one answer put it together again. -/
theorem readPages_const (size : ℕ) (s : List α) (n : ℕ) :
    readPages size (fun _ => s) n = s.take (n * size) := by
  induction n with
  | zero => simp [readPages]
  | succ n ih =>
    have hstep : readPages size (fun _ => s) (n + 1) =
        readPages size (fun _ => s) n ++ page size s n := by
      unfold readPages
      rw [List.range_succ, List.flatMap_append]
      simp
    rw [hstep, ih, Nat.succ_mul, List.take_add]
    rfl

/-! ## Rows that are told apart -/

/-- If the order tells any two rows apart, there is one answer only. -/
theorem coversOnce_of_unique (o : SortOrder α) (size : ℕ) (rows : List α)
    (h : ∀ x ∈ rows, ∀ y ∈ rows, o.le x y = true → o.le y x = true → x = y) :
    CoversOnce o size rows := by
  intro answers hanswers n hn
  have hsame : answers = fun _ => answers 0 := by
    funext k
    have hk := hanswers k
    have hzero := hanswers 0
    refine List.Perm.eq_of_pairwise (fun x y hx hy => ?_) hk.sorted hzero.sorted
      (hk.perm.trans hzero.perm.symm)
    exact h x (hk.perm.mem_iff.mp hx) y (hzero.perm.mem_iff.mp hy)
  have hlen := (hanswers 0).perm.length_eq
  rw [hsame, readPages_const, List.take_of_length_le (by omega)]
  exact (hanswers 0).perm

/-! ## Rows that are not told apart -/

/-- Where a row is in a page that no rows are split by. -/
def onPage (o : SortOrder α) (size : ℕ) (rows : List α) (k : ℕ) (r : α) : Bool :=
  k * size < numThrough o rows r && numThrough o rows r ≤ (k + 1) * size

/-- If no page splits rows, a page has the same rows in any answer. -/
theorem SortedAs.page_eq_filter (h : SortedAs o rows s) (hunsplit : Unsplit o size rows) (k : ℕ) :
    page size s k = s.filter (onPage o size rows k) := by
  have hmul : (k + 1) * size = k * size + size := Nat.succ_mul k size
  -- in front of the end of a page are the rows of this page and the ones before
  have hthrough (i m : ℕ) (hi : i < s.length) (him : i < m * size) :
      numThrough o rows s[i] ≤ m * size := by
    have hmem : s[i] ∈ rows := h.perm.mem_iff.mp (List.getElem_mem hi)
    have hbefore := h.numBefore_le hi
    refine (hunsplit s[i] hmem m).resolve_left fun hle => ?_
    omega
  have hfirst : (s.take (k * size)).filter (onPage o size rows k) = [] := by
    rw [List.filter_eq_nil_iff]
    intro x hx
    obtain ⟨i, hi, rfl⟩ := List.mem_take_iff_getElem.mp hx
    have hle := hthrough i k (by omega) (by omega)
    simp only [onPage, Bool.and_eq_true, decide_eq_true_eq]
    omega
  have hpage : (page size s k).filter (onPage o size rows k) = page size s k := by
    rw [List.filter_eq_self]
    intro x hx
    obtain ⟨i, hi, rfl⟩ := List.mem_take_iff_getElem.mp hx
    rw [List.length_drop] at hi
    rw [List.getElem_drop]
    have hlt := h.lt_numThrough (i := k * size + i) (by omega)
    have hle := hthrough (k * size + i) (k + 1) (by omega) (by omega)
    simp only [onPage, Bool.and_eq_true, decide_eq_true_eq]
    omega
  have hrest : (s.drop ((k + 1) * size)).filter (onPage o size rows k) = [] := by
    rw [List.filter_eq_nil_iff]
    intro x hx
    obtain ⟨i, hi, rfl⟩ := List.mem_drop_iff_getElem.mp hx
    have hlt := h.lt_numThrough (i := (k + 1) * size + i) (by omega)
    simp only [onPage, Bool.and_eq_true, decide_eq_true_eq]
    omega
  have hs : s = s.take (k * size) ++ (page size s k ++ s.drop ((k + 1) * size)) := by
    rw [← drop_page, List.take_append_drop]
  calc page size s k
      = (s.take (k * size) ++ (page size s k ++ s.drop ((k + 1) * size))).filter
          (onPage o size rows k) := by
        rw [List.filter_append, List.filter_append, hfirst, hpage, hrest, List.nil_append,
          List.append_nil]
    _ = s.filter (onPage o size rows k) := by rw [← hs]

theorem coversOnce_of_unsplit (hunsplit : Unsplit o size rows) : CoversOnce o size rows := by
  intro answers hanswers n hn
  have hsort := answer_mergeSort o rows
  have hpages (k : ℕ) :
      (page size (answers k) k).Perm (page size (rows.mergeSort o.le) k) := by
    rw [(hanswers k).page_eq_filter hunsplit, hsort.page_eq_filter hunsplit]
    exact ((hanswers k).perm.trans hsort.perm.symm).filter _
  have hperm : (readPages size answers n).Perm
      (readPages size (fun _ => rows.mergeSort o.le) n) :=
    List.Perm.flatMap_left _ fun k _ => hpages k
  have hlen := hsort.perm.length_eq
  rw [readPages_const, List.take_of_length_le (by omega)] at hperm
  exact hperm.trans hsort.perm

/-- Neighbours that are not told apart may change places. -/
theorem SortedAs.swap (h : SortedAs o rows (a ++ x :: y :: b)) (hyx : o.le y x = true) :
    SortedAs o rows (a ++ y :: x :: b) where
  perm := ((List.Perm.swap x y b).append_left a).trans h.perm
  sorted := by
    have hsorted := h.sorted
    simp only [List.pairwise_append, List.pairwise_cons, List.mem_cons, forall_eq_or_imp]
      at hsorted ⊢
    obtain ⟨ha, ⟨⟨-, hx⟩, hy, hb⟩, hab⟩ := hsorted
    refine ⟨ha, ⟨⟨hyx, hy⟩, hx, hb⟩, fun z hz => ?_⟩
    obtain ⟨hzx, hzy, hzb⟩ := hab z hz
    exact ⟨hzy, hzx, hzb⟩

/-- At the end of a page that splits rows stand two neighbours that are not told apart. -/
theorem SortedAs.exists_neighbours (h : SortedAs o rows s) {m : ℕ} (hlo : numBefore o rows r < m)
    (hhi : m < numThrough o rows r) :
    ∃ a x y b, s = a ++ x :: y :: b ∧ a.length + 1 = m ∧ o.le y x = true := by
  have hlen : numThrough o rows r ≤ s.length := by
    rw [h.perm.length_eq]
    exact List.countP_le_length
  have hm : m < s.length := by omega
  obtain ⟨j, rfl⟩ : ∃ j, m = j + 1 := ⟨m - 1, by omega⟩
  have hj : j < s.length := by omega
  have hyr := h.le_of_lt_numThrough hm hhi
  have hrx := h.le_of_numBefore_le (r := r) hj (by omega)
  refine ⟨s.take j, s[j], s[j + 1], s.drop (j + 1 + 1), ?_, ?_, o.trans _ _ _ hyr hrx⟩
  · rw [← List.drop_eq_getElem_cons hm, ← List.drop_eq_getElem_cons hj, List.take_append_drop]
  · rw [List.length_take]
    omega

/-- If a page splits rows, the row at its end can come once more on the next page. -/
theorem unsplit_of_coversOnce (hsize : 0 < size) (hnodup : rows.Nodup)
    (h : CoversOnce o size rows) : Unsplit o size rows := by
  intro r hr k
  by_contra hsplit
  obtain ⟨hlo, hhi⟩ := not_or.mp hsplit
  obtain ⟨a, x, y, b, hs, hlen, hyx⟩ := (answer_mergeSort o rows).exists_neighbours
    (Nat.lt_of_not_le hlo) (Nat.lt_of_not_le hhi)
  have hfirst : SortedAs o rows (a ++ x :: y :: b) := hs ▸ answer_mergeSort o rows
  have hsecond := hfirst.swap hyx
  obtain ⟨j, rfl⟩ : ∃ j, k = j + 1 := by
    cases k with
    | zero => simp at hlen
    | succ j => exact ⟨j, rfl⟩
  -- the page up to the split is of the one answer, all others are of the other
  let answers (i : ℕ) : List α := if i = j then a ++ x :: y :: b else a ++ y :: x :: b
  have hanswers (i : ℕ) : SortedAs o rows (answers i) := by
    show SortedAs o rows (if i = j then _ else _)
    split
    · exact hfirst
    · exact hsecond
  have henough : rows.length ≤ (j + 2 + rows.length) * size := by
    have hle := Nat.le_mul_of_pos_right (j + 2 + rows.length) hsize
    omega
  have hcover := h answers hanswers (j + 2 + rows.length) henough
  have hdisjoint := (List.nodup_flatMap.mp (hcover.nodup_iff.mpr hnodup)).2
  have hpages := List.pairwise_iff_getElem.mp hdisjoint j (j + 1) (by rw [List.length_range]; omega)
    (by rw [List.length_range]; omega) (by omega)
  rw [List.getElem_range, List.getElem_range] at hpages
  have hmul : (j + 1) * size = j * size + size := Nat.succ_mul j size
  have hmul' : (j + 1 + 1) * size = (j + 1) * size + size := Nat.succ_mul (j + 1) size
  have hx : x ∈ page size (answers j) j := by
    have hmem := mem_page size j (s := a ++ x :: y :: b) (i := a.length) (by simp) (by omega)
      (by omega)
    show x ∈ page size (if j = j then _ else _) j
    rw [if_pos rfl]
    simpa using hmem
  have hx' : x ∈ page size (answers (j + 1)) (j + 1) := by
    have hmem := mem_page size (j + 1) (s := a ++ y :: x :: b) (i := a.length + 1) (by simp)
      (by omega) (by omega)
    show x ∈ page size (if j + 1 = j then _ else _) (j + 1)
    rw [if_neg (by omega)]
    simpa using hmem
  exact hpages hx hx'

/-- The pages hold every row once, whatever the answers, exactly if none of them splits rows. -/
theorem coversOnce_iff (hsize : 0 < size) (hnodup : rows.Nodup) :
    CoversOnce o size rows ↔ Unsplit o size rows :=
  ⟨unsplit_of_coversOnce hsize hnodup, coversOnce_of_unsplit⟩

end

end Paging
end LeadPulse
