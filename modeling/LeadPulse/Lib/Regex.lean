import Mathlib.Computability.RegularExpressions
import Mathlib.Tactic.Common

/-!
# Regular expressions with classes and counts

The notations of a practical regular expression over Mathlib's `RegularExpression`: a
character class `[...]`, `r?`, `r{0,n}`, `r{n,}`, `r+`, each with the language it stands for.

`FullMatch r s` is Python's `re.match(r"^r$", s)`: the anchor `$` also matches in front of
a line feed that ends the string.
-/

namespace LeadPulse
namespace Regex

open RegularExpression

variable {α : Type*}

/-- `[cs]` -/
def oneOf : List α → RegularExpression α
  | [] => 0
  | c :: cs => char c + oneOf cs

/-- `r?` -/
def opt (r : RegularExpression α) : RegularExpression α := 1 + r

/-- `r{0,n}` -/
def atMost (r : RegularExpression α) : ℕ → RegularExpression α
  | 0 => 1
  | n + 1 => opt (r * atMost r n)

/-- `r{n,}` -/
def atLeast (r : RegularExpression α) : ℕ → RegularExpression α
  | 0 => r.star
  | n + 1 => r * atLeast r n

/-- `r+` -/
def oneOrMore (r : RegularExpression α) : RegularExpression α := r * r.star

/-- `re.match(r"^r$", s)` finds a match. -/
def FullMatch (r : RegularExpression Char) (s : List Char) : Prop :=
  s ∈ r.matches' ∨ ∃ t ∈ r.matches', s = t ++ ['\n']

/-! ## The languages -/

theorem mem_oneOf {cs w : List α} : w ∈ (oneOf cs).matches' ↔ ∃ c ∈ cs, w = [c] := by
  induction cs with
  | nil => simp [oneOf, Language.notMem_zero]
  | cons c cs ih =>
    rw [oneOf, matches'_add, Language.mem_add, ih]
    show w = [c] ∨ _ ↔ _
    simp

theorem mem_opt {r : RegularExpression α} {w : List α} :
    w ∈ (opt r).matches' ↔ w = [] ∨ w ∈ r.matches' := by
  simp [opt, Language.mem_add, Language.mem_one]

theorem mem_mul {r r' : RegularExpression α} {w : List α} :
    w ∈ (r * r').matches' ↔ ∃ a ∈ r.matches', ∃ b ∈ r'.matches', a ++ b = w := by
  rw [matches'_mul, Language.mem_mul]

theorem mem_oneOf_mul {cs w : List α} {r : RegularExpression α} :
    w ∈ (oneOf cs * r).matches' ↔ ∃ c ∈ cs, ∃ v ∈ r.matches', w = c :: v := by
  rw [mem_mul]
  constructor
  · rintro ⟨a, ha, v, hv, rfl⟩
    obtain ⟨c, hc, rfl⟩ := mem_oneOf.mp ha
    exact ⟨c, hc, v, hv, rfl⟩
  · rintro ⟨c, hc, v, hv, rfl⟩
    exact ⟨[c], mem_oneOf.mpr ⟨c, hc, rfl⟩, v, hv, rfl⟩

theorem mem_atMost_oneOf {cs w : List α} {n : ℕ} :
    w ∈ (atMost (oneOf cs) n).matches' ↔ w.length ≤ n ∧ ∀ c ∈ w, c ∈ cs := by
  induction n generalizing w with
  | zero =>
    show w ∈ (1 : Language α) ↔ _
    rw [Language.mem_one, Nat.le_zero, List.length_eq_zero_iff]
    exact ⟨fun h => ⟨h, by simp [h]⟩, fun h => h.1⟩
  | succ n ih =>
    rw [atMost, mem_opt, mem_oneOf_mul]
    cases w with
    | nil => simp
    | cons x xs =>
      constructor
      · rintro (h | ⟨c, hc, v, hv, h⟩)
        · cases h
        · cases h
          obtain ⟨hlen, hall⟩ := ih.mp hv
          exact ⟨by simpa using hlen, by simpa using ⟨hc, hall⟩⟩
      · -- the first character is taken, and `n` more may follow
        rintro ⟨hlen, hall⟩
        have hlen' : xs.length ≤ n := by simpa using hlen
        exact Or.inr ⟨x, hall x (by simp), xs,
          ih.mpr ⟨hlen', fun c hc => hall c (by simp [hc])⟩, rfl⟩

theorem mem_star_oneOf {cs w : List α} :
    w ∈ (oneOf cs).star.matches' ↔ ∀ c ∈ w, c ∈ cs := by
  rw [matches'_star, Language.mem_kstar]
  constructor
  · rintro ⟨ws, rfl, hws⟩ c hc
    obtain ⟨v, hv, hcv⟩ := List.mem_flatten.mp hc
    obtain ⟨d, hd, rfl⟩ := mem_oneOf.mp (hws v hv)
    obtain rfl : c = d := by simpa using hcv
    exact hd
  · intro h
    refine ⟨w.map fun c => [c], ?_, fun v hv => ?_⟩
    · rw [← List.flatMap_def, List.flatMap_singleton']
    · obtain ⟨c, hc, rfl⟩ := List.mem_map.mp hv
      exact mem_oneOf.mpr ⟨c, h c hc, rfl⟩

theorem mem_atLeast_oneOf {cs w : List α} {n : ℕ} :
    w ∈ (atLeast (oneOf cs) n).matches' ↔ n ≤ w.length ∧ ∀ c ∈ w, c ∈ cs := by
  induction n generalizing w with
  | zero =>
    rw [atLeast, mem_star_oneOf]
    simp
  | succ n ih =>
    rw [atLeast, mem_oneOf_mul]
    constructor
    · rintro ⟨c, hc, v, hv, rfl⟩
      obtain ⟨hlen, hall⟩ := ih.mp hv
      exact ⟨by simpa using hlen, by simpa using ⟨hc, hall⟩⟩
    · rintro ⟨hlen, hall⟩
      cases w with
      | nil => simp at hlen
      | cons x xs =>
        have hlen' : n ≤ xs.length := by simpa using hlen
        exact ⟨x, hall x (by simp), xs,
          ih.mpr ⟨hlen', fun c hc => hall c (by simp [hc])⟩, rfl⟩

theorem mem_oneOrMore {r : RegularExpression α} {w : List α} :
    w ∈ (oneOrMore r).matches' ↔
      ∃ ws : List (List α), ws ≠ [] ∧ w = ws.flatten ∧ ∀ v ∈ ws, v ∈ r.matches' := by
  rw [oneOrMore, mem_mul]
  simp only [matches'_star, Language.mem_kstar]
  constructor
  · rintro ⟨a, ha, _, ⟨ws, rfl, hws⟩, rfl⟩
    refine ⟨a :: ws, by simp, by simp, fun v hv => ?_⟩
    rcases List.mem_cons.mp hv with rfl | hv
    · exact ha
    · exact hws v hv
  · rintro ⟨ws, hne, rfl, hws⟩
    cases ws with
    | nil => exact absurd rfl hne
    | cons a ws =>
      exact ⟨a, hws a (by simp), ws.flatten, ⟨ws, rfl, fun v hv => hws v (by simp [hv])⟩, rfl⟩

end Regex
end LeadPulse
