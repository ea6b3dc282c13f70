import LeadPulse.Lib.PyStr
import Mathlib.Data.List.Basic

/-!
# Python numbers and their text

`str n` and `int s` are `str(n)` and `int(s)` for integers, where a digit is an ASCII one, and
`int_str` says that the second reads what the first writes. Of floats `PyFloat` keeps what the
language promises: `float` reads what `str` writes.
-/

namespace LeadPulse
namespace PyNum

open PyStr

/-! ## Integers -/

def str : ℤ → List Char
  | .ofNat n => Nat.toDigits 10 n
  | .negSucc n => '-' :: Nat.toDigits 10 (n + 1)

/-- Digits with single underscores between them. -/
def digits (s : List Char) : Option ℕ :=
  if (s.splitOn '_').all fun group => !group.isEmpty && group.all Char.isDigit then
    some (Nat.ofDigitChars 10 (s.filter (· ≠ '_')) 0)
  else none

/-- White space around, and a sign, are read over. -/
def int (s : List Char) : Option ℤ :=
  match strip s with
  | '-' :: s => (digits s).map Int.negOfNat
  | '+' :: s => (digits s).map Int.ofNat
  | s => (digits s).map Int.ofNat

theorem isSpace_of_isDigit {c : Char} (h : c.isDigit = true) : isSpace c = false := by
  simp only [Char.isDigit, Bool.and_eq_true, decide_eq_true_eq] at h
  have hlow : 48 ≤ c.toNat := h.1
  have hhigh : c.toNat ≤ 57 := h.2
  simp only [isSpace, List.mem_cons, List.not_mem_nil, or_false, decide_eq_false_iff_not]
  omega

theorem digits_toDigits (n : ℕ) : digits (Nat.toDigits 10 n) = some n := by
  have hall : ∀ c ∈ Nat.toDigits 10 n, c.isDigit = true := fun c hc =>
    Nat.isDigit_of_mem_toDigits (by decide) (by decide) hc
  have hunder : '_' ∉ Nat.toDigits 10 n := Nat.underscore_not_in_toDigits
  have hfilter : (Nat.toDigits 10 n).filter (· ≠ '_') = Nat.toDigits 10 n := by
    rw [List.filter_eq_self]
    intro c hc
    have hne : c ≠ '_' := fun heq => hunder (heq ▸ hc)
    simpa using hne
  unfold digits
  rw [List.splitOn_eq_singleton hunder, hfilter, Nat.ofDigitChars_ten_toDigits, if_pos]
  simp only [List.all_cons, List.all_nil, Bool.and_true, Bool.and_eq_true, Bool.not_eq_true',
    List.isEmpty_eq_false_iff, List.all_eq_true]
  exact ⟨Nat.toDigits_ne_nil, hall⟩

/-- `int(str(n)) == n`. -/
theorem int_str (n : ℤ) : int (str n) = some n := by
  have hspace : ∀ (m : ℕ) (c : Char), c ∈ Nat.toDigits 10 m → isSpace c = false := fun m c hc =>
    isSpace_of_isDigit (Nat.isDigit_of_mem_toDigits (by decide) (by decide) hc)
  cases n with
  | ofNat n =>
    have hstrip : strip (Nat.toDigits 10 n) = Nat.toDigits 10 n :=
      strip_of_ends (fun c hc => hspace n c (List.mem_of_mem_head? hc))
        (fun c hc => hspace n c (List.mem_of_mem_getLast? hc))
    show int (Nat.toDigits 10 n) = some (n : ℤ)
    unfold int
    rw [hstrip]
    -- the text starts with no sign
    split
    · rename_i s heq
      have hsign : '-' ∈ Nat.toDigits 10 n := by simp [heq]
      have hdigit := Nat.isDigit_of_mem_toDigits (by decide) (by decide) hsign
      cases hdigit
    · rename_i s heq
      have hsign : '+' ∈ Nat.toDigits 10 n := by simp [heq]
      have hdigit := Nat.isDigit_of_mem_toDigits (by decide) (by decide) hsign
      cases hdigit
    · rw [digits_toDigits]
      rfl
  | negSucc n =>
    have hstrip : strip ('-' :: Nat.toDigits 10 (n + 1)) = '-' :: Nat.toDigits 10 (n + 1) := by
      apply strip_of_ends
      · intro c hc
        obtain rfl : '-' = c := by simpa using hc
        decide
      · intro c hc
        rcases List.mem_cons.mp (List.mem_of_mem_getLast? hc) with rfl | hmem
        · decide
        · exact hspace (n + 1) c hmem
    show int ('-' :: Nat.toDigits 10 (n + 1)) = some (Int.negSucc n)
    unfold int
    rw [hstrip]
    show (digits (Nat.toDigits 10 (n + 1))).map _ = _
    rw [digits_toDigits]
    rfl

end PyNum

/-! ## Floats -/

/-- Floats with `str` and `float`, where `float` fails on what is not the text of a number. -/
structure PyFloat (F : Type) where
  str : F → List Char
  float : List Char → Option F
  /-- `float(str(x)) == x`. -/
  float_str (x : F) : float (str x) = some x
  float_none : float "None".toList = none

end LeadPulse
