import Mathlib.Algebra.Order.Floor.Ring
import Mathlib.Data.Rat.Floor
import Mathlib.Tactic.Linarith
import Mathlib.Tactic.NormNum

/-!
# Tokens and their lifetimes

Two clocks decide whether a revoked token is refused. `decode_token` takes a token as long as
the whole second of the moment is not past `exp`; the blacklist keeps its id for the whole
seconds that remain until `exp`, and for one second at least. Times are rational numbers of
seconds here, so that the two can be compared at any moment.

`lapse_lt` and `le_lapse` compare them: an entry made before `exp` runs out before the token
does, one made later does not.
-/

namespace LeadPulse

inductive TokenType where
  | access
  | refresh
deriving DecidableEq, Repr

/-- The claims of a token that the server reads. -/
structure Token where
  jti : ℕ
  type : TokenType
  sub : ℕ
  exp : ℤ
deriving DecidableEq, Repr

/-- `decode_token` of a token with a valid signature: it is not expired. -/
def decodeToken (tok : Token) (now : ℚ) : Bool := ⌊now⌋ ≤ tok.exp

/-- `int(x)`: towards zero. -/
def truncate (x : ℚ) : ℤ := if 0 ≤ x then ⌊x⌋ else ⌈x⌉

/-- The lifetime of a blacklist entry, `max(int(exp - time.time()), 1)`. -/
def ttlSeconds (exp : ℤ) (now : ℚ) : ℤ := max (truncate (exp - now)) 1

section Lifetimes

variable {tok : Token} {now t : ℚ} {exp : ℤ}

theorem decodeToken_iff : decodeToken tok now = true ↔ now < tok.exp + 1 := by
  unfold decodeToken
  rw [decide_eq_true_eq, ← Int.lt_add_one_iff, Int.floor_lt]
  push_cast
  rfl

theorem truncate_le (h : 0 ≤ t) : (truncate t : ℚ) ≤ t := by
  unfold truncate
  rw [if_pos h]
  exact Int.floor_le t

theorem one_le_ttlSeconds : 1 ≤ ttlSeconds exp now := le_max_right _ _

/-- An entry that is made before `exp` is gone while the token is still taken. -/
theorem lapse_lt (h : now < exp) : now + ttlSeconds exp now < exp + 1 := by
  have hle : (truncate (exp - now) : ℚ) ≤ exp - now := truncate_le (by linarith)
  have hmax : ((ttlSeconds exp now : ℤ) : ℚ) = max (truncate (exp - now) : ℚ) 1 := by
    unfold ttlSeconds
    push_cast
    rfl
  rw [hmax]
  rcases max_cases ((truncate (exp - now) : ℤ) : ℚ) 1 with ⟨hm, _⟩ | ⟨hm, _⟩
  · rw [hm]
    linarith
  · rw [hm]
    linarith

/-- An entry that is made at `exp` or later outlives the token. -/
theorem le_lapse (h : (exp : ℚ) ≤ now) : (exp : ℚ) + 1 ≤ now + ttlSeconds exp now := by
  have hone : (1 : ℚ) ≤ (ttlSeconds exp now : ℤ) := by exact_mod_cast one_le_ttlSeconds
  linarith

end Lifetimes

example : ttlSeconds 100 (199 / 2) = 1 := by decide +kernel

end LeadPulse
