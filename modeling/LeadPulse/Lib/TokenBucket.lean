import Mathlib.Algebra.Order.Field.Basic
import Mathlib.Algebra.BigOperators.Group.List.Basic
import Mathlib.Tactic.Linarith
import Mathlib.Tactic.Ring

/-!
# Token buckets

A bucket holds up to `cap` tokens and gets `rate` new ones per unit of time; what is taken out
of it is written to a log, with the time. `Paced` is the invariant of such a bucket. It carries
the potential argument: what has been taken since `t`, together with what is still there, is at
most `cap` and the refill since `t`. So the log keeps to the bound `cap + rate * d` in every
window of length `d`, `Paced.within`.

The bound is no wider than the bucket. `Tight` is the invariant of a bucket that was full at the
start: since some moment the log and the level together have been exactly what the bound allows.
So to take more than there is breaks the bound, `Tight.overdrawn`.

The bucket is any `level` at a time `last`; `refill` and `take` are the two moves.
-/

namespace LeadPulse
namespace TokenBucket

section Log

variable {K : Type*} {log log' : List (K × ℕ)} {x : K × ℕ} {p q : K → Bool}

/-- The tokens taken at a time that meets `p`. -/
def taken (p : K → Bool) (log : List (K × ℕ)) : ℕ :=
  ((log.filter fun x => p x.1).map Prod.snd).sum

@[simp] theorem taken_nil : taken p ([] : List (K × ℕ)) = 0 := rfl

theorem taken_cons : taken p (x :: log) = (if p x.1 then x.2 else 0) + taken p log := by
  unfold taken
  by_cases hx : p x.1 = true
  · simp [hx]
  · simp [hx]

theorem taken_append : taken p (log ++ log') = taken p log + taken p log' := by
  unfold taken
  rw [List.filter_append, List.map_append, List.sum_append]

theorem taken_singleton : taken p [x] = if p x.1 then x.2 else 0 := by
  rw [taken_cons, taken_nil, Nat.add_zero]

/-- One token each time. -/
theorem taken_ones (ts : List K) : taken p (ts.map fun t => (t, 1)) = ts.countP p := by
  induction ts with
  | nil => rfl
  | cons t ts ih =>
    rw [List.map_cons, taken_cons, ih, List.countP_cons]
    exact Nat.add_comm _ _

/-- The narrower the test, the less is taken. -/
theorem taken_mono (hpq : ∀ x ∈ log, p x.1 = true → q x.1 = true) : taken p log ≤ taken q log := by
  induction log with
  | nil => exact Nat.le_refl 0
  | cons x log ih =>
    have hrest := ih fun y hy => hpq y (List.mem_cons_of_mem x hy)
    have hx := hpq x List.mem_cons_self
    rw [taken_cons, taken_cons]
    by_cases hp : p x.1 = true
    · rw [if_pos hp, if_pos (hx hp)]
      omega
    · rw [if_neg hp]
      omega

theorem taken_eq_zero (h : ∀ x ∈ log, p x.1 = false) : taken p log = 0 := by
  unfold taken
  rw [List.filter_eq_nil_iff.mpr fun x hx => by simp [h x hx]]
  rfl

variable [LinearOrder K] {t u last : K}

/-- The tokens taken from `t` on. -/
def takenSince (log : List (K × ℕ)) (t : K) : ℕ := taken (fun u => t ≤ u) log

/-- The tokens taken from `t` to `u`. -/
def takenWithin (log : List (K × ℕ)) (t u : K) : ℕ := taken (fun v => t ≤ v ∧ v ≤ u) log

theorem past_snoc (hpast : ∀ x ∈ log, x.1 ≤ last) (n : ℕ) :
    ∀ x ∈ log ++ [(last, n)], x.1 ≤ last := by
  intro x hx
  rcases List.mem_append.mp hx with hx | hx
  · exact hpast x hx
  · rw [List.mem_singleton.mp hx]

/-- Nothing has been taken in a time that has not come. -/
theorem takenSince_eq_zero (hpast : ∀ x ∈ log, x.1 ≤ last) (ht : last < t) :
    takenSince log t = 0 :=
  taken_eq_zero fun x hx => decide_eq_false (not_le.mpr (lt_of_le_of_lt (hpast x hx) ht))

theorem takenWithin_le_takenSince : takenWithin log t u ≤ takenSince log t := by
  refine taken_mono fun x _ hx => ?_
  have hx : t ≤ x.1 ∧ x.1 ≤ u := of_decide_eq_true hx
  exact decide_eq_true hx.1

/-- Up to the last moment. -/
theorem takenWithin_eq_takenSince (hpast : ∀ x ∈ log, x.1 ≤ last) :
    takenWithin log t last = takenSince log t := by
  refine le_antisymm takenWithin_le_takenSince (taken_mono fun x hx hsince => ?_)
  exact decide_eq_true ⟨of_decide_eq_true hsince, hpast x hx⟩

end Log

variable {K : Type*} [Field K] [LinearOrder K]

theorem takenSince_snoc {log : List (K × ℕ)} {t last : K} (n : ℕ) (ht : t ≤ last) :
    (takenSince (log ++ [(last, n)]) t : K) = takenSince log t + n := by
  unfold takenSince
  rw [taken_append, taken_singleton, if_pos (decide_eq_true ht), Nat.cast_add]

/-- A bucket with `level` tokens at the time `last`, and the log of what was taken from it. -/
structure Paced (cap rate : K) (log : List (K × ℕ)) (level last : K) : Prop where
  nonneg : 0 ≤ level
  le_cap : level ≤ cap
  /-- The log does not reach beyond `last`. -/
  past : ∀ x ∈ log, x.1 ≤ last
  /-- The potential: what was taken since `t`, and what could be taken now. -/
  since : ∀ t ≤ last, (takenSince log t : K) + level ≤ cap + rate * (last - t)
  within : ∀ t d, 0 ≤ d → (takenWithin log t (t + d) : K) ≤ cap + rate * d

namespace Paced

variable [IsStrictOrderedRing K] {cap rate level last : K} {log : List (K × ℕ)}

/-- A bucket from which nothing has been taken yet. -/
theorem start (hrate : 0 ≤ rate) (hnonneg : 0 ≤ level) (hle : level ≤ cap) (last : K) :
    Paced cap rate [] level last where
  nonneg := hnonneg
  le_cap := hle
  past := fun x hx => nomatch hx
  since := fun t ht => by
    have hrefill : 0 ≤ rate * (last - t) := mul_nonneg hrate (sub_nonneg.mpr ht)
    have hzero : takenSince ([] : List (K × ℕ)) t = 0 := rfl
    rw [hzero, Nat.cast_zero, zero_add]
    linarith
  within := fun t d hd => by
    have hrefill : 0 ≤ rate * d := mul_nonneg hrate hd
    have hzero : takenWithin ([] : List (K × ℕ)) t (t + d) = 0 := rfl
    rw [hzero, Nat.cast_zero]
    linarith

/-- The time goes on to `now`, and the bucket gets what this time brings, up to `cap`. -/
theorem refill (h : Paced cap rate log level last) (hrate : 0 ≤ rate) {now : K}
    (hnow : last ≤ now) :
    Paced cap rate log (min cap (level + (now - last) * rate)) now where
  nonneg := by
    have hgain : 0 ≤ (now - last) * rate := mul_nonneg (sub_nonneg.mpr hnow) hrate
    exact le_min (h.nonneg.trans h.le_cap) (add_nonneg h.nonneg hgain)
  le_cap := min_le_left _ _
  past := fun x hx => (h.past x hx).trans hnow
  since := fun t ht => by
    by_cases hlast : t ≤ last
    · -- the refill since `last` is added on both sides
      have hold := h.since t hlast
      have hmin := min_le_right cap (level + (now - last) * rate)
      calc (takenSince log t : K) + min cap (level + (now - last) * rate)
          ≤ takenSince log t + (level + (now - last) * rate) := by linarith
        _ ≤ cap + rate * (last - t) + (now - last) * rate := by linarith
        _ = cap + rate * (now - t) := by ring
    · -- nothing was taken since `t`, and the level is at most `cap`
      have hzero := takenSince_eq_zero h.past (not_le.mp hlast)
      have hmin := min_le_left cap (level + (now - last) * rate)
      have hrefill : 0 ≤ rate * (now - t) := mul_nonneg hrate (sub_nonneg.mpr ht)
      rw [hzero, Nat.cast_zero, zero_add]
      linarith
  within := h.within

/-- `n` tokens are taken out of a bucket that has them. -/
theorem take (h : Paced cap rate log level last) (hrate : 0 ≤ rate) {n : ℕ} (hn : (n : K) ≤ level) :
    Paced cap rate (log ++ [(last, n)]) (level - n) last := by
  have hpot : ∀ t ≤ last, (takenSince (log ++ [(last, n)]) t : K) + (level - n) ≤
      cap + rate * (last - t) := by
    intro t ht
    have hold := h.since t ht
    rw [takenSince_snoc n ht]
    linarith
  refine ⟨sub_nonneg.mpr hn, ?_, past_snoc h.past n, hpot, ?_⟩
  · have hcap := h.le_cap
    have hn0 : (0 : K) ≤ n := Nat.cast_nonneg n
    linarith
  · intro t d hd
    by_cases hin : t ≤ last ∧ last ≤ t + d
    · -- the window holds this moment, so it is bounded by the potential
      have hpot := hpot t hin.1
      have hle : (takenWithin (log ++ [(last, n)]) t (t + d) : K) ≤
          takenSince (log ++ [(last, n)]) t := Nat.cast_le.mpr takenWithin_le_takenSince
      have hrest : rate * (last - t) ≤ rate * d :=
        mul_le_mul_of_nonneg_left (by linarith [hin.2]) hrate
      linarith [sub_nonneg.mpr hn]
    · have heq : takenWithin (log ++ [(last, n)]) t (t + d) = takenWithin log t (t + d) := by
        unfold takenWithin
        rw [taken_append, taken_singleton, if_neg (by simpa using hin), Nat.add_zero]
      rw [heq]
      exact h.within t d hd

/-- A bucket left alone for as long as it takes to fill it is full. -/
theorem full (h : Paced cap rate log level last) (hrate : 0 ≤ rate) {now : K} (hnow : last ≤ now)
    (hfill : cap ≤ (now - last) * rate) : Paced cap rate log cap now := by
  have hmin : min cap (level + (now - last) * rate) = cap :=
    min_eq_left (hfill.trans (le_add_of_nonneg_left h.nonneg))
  have hpaced := h.refill hrate hnow
  rw [hmin] at hpaced
  exact hpaced

end Paced

/-! ## The bound is exact -/

/-- Since some moment, what was taken and what is still there are all that the bound allows. -/
def Tight (cap rate : K) (log : List (K × ℕ)) (level last : K) : Prop :=
  ∃ t ≤ last, (takenSince log t : K) + level = cap + rate * (last - t)

namespace Tight

variable {cap rate level last : K} {log : List (K × ℕ)}

/-- A full bucket from which nothing has been taken yet. -/
theorem start (cap rate last : K) : Tight cap rate [] cap last := by
  refine ⟨last, le_rfl, ?_⟩
  have hzero : takenSince ([] : List (K × ℕ)) last = 0 := rfl
  rw [hzero, Nat.cast_zero, sub_self, mul_zero, zero_add, add_zero]

theorem refill (h : Tight cap rate log level last) (hpaced : Paced cap rate log level last)
    {now : K} (hnow : last ≤ now) :
    Tight cap rate log (min cap (level + (now - last) * rate)) now := by
  obtain ⟨t, ht, htight⟩ := h
  by_cases hfull : cap < level + (now - last) * rate
  · -- the bucket has overflowed, so the moment to count from is now
    have hlt : last < now := by
      by_contra hn
      obtain rfl := le_antisymm hnow (not_lt.mp hn)
      rw [sub_self, zero_mul, add_zero] at hfull
      exact absurd hpaced.le_cap (not_le.mpr hfull)
    refine ⟨now, le_rfl, ?_⟩
    rw [takenSince_eq_zero hpaced.past hlt, min_eq_left hfull.le, Nat.cast_zero, sub_self,
      mul_zero, zero_add, add_zero]
  · refine ⟨t, ht.trans hnow, ?_⟩
    rw [min_eq_right (not_lt.mp hfull)]
    calc (takenSince log t : K) + (level + (now - last) * rate)
        = cap + rate * (last - t) + (now - last) * rate := by rw [← add_assoc, htight]
      _ = cap + rate * (now - t) := by ring

theorem take (h : Tight cap rate log level last) (n : ℕ) :
    Tight cap rate (log ++ [(last, n)]) (level - n) last := by
  obtain ⟨t, ht, htight⟩ := h
  refine ⟨t, ht, ?_⟩
  rw [← htight, takenSince_snoc n ht]
  ring

/-- Who takes more than there is breaks the bound. -/
theorem overdrawn [IsStrictOrderedRing K] (h : Tight cap rate log level last)
    (hpast : ∀ x ∈ log, x.1 ≤ last) {n : ℕ} (hn : level < n) :
    ∃ t d, 0 ≤ d ∧ cap + rate * d < (takenWithin (log ++ [(last, n)]) t (t + d) : K) := by
  obtain ⟨t, ht, htight⟩ := h
  refine ⟨t, last - t, sub_nonneg.mpr ht, ?_⟩
  rw [add_sub_cancel, takenWithin_eq_takenSince (past_snoc hpast n),
    takenSince_snoc n ht, ← htight]
  linarith

end Tight
end TokenBucket
end LeadPulse
