import Mathlib.Data.List.Count
import Mathlib.Logic.Function.Basic
import Mathlib.Order.Lattice
import Mathlib.Tactic.Common

/-!
# Values that expire

A cache in which every key is set to a value for a lifetime, and a loop that uses it to detect
changes: it looks at one value after the other, and one that the cache does not hold for its key
counts as a change and is put there. A value that the cache holds is left with the lifetime it has.

* `get`, `setex`: reading a key and setting it;
* `lookAll`, `changes`: the cache after the loop, and the number of changes;
* `exists_lookAll_of_mem`: after a loop over different keys the cache holds what has been seen;
* `changes_eq_countP`: the changes are those that the cache did not hold before the loop, so that
  `changes_eq_zero` is the rule for a loop that has nothing new to look at.
-/

namespace LeadPulse

/-- For each key that has been set, its value and the time at which it expires. -/
abbrev Cache (K V T : Type*) := K → Option (V × T)

namespace Cache

variable {K V T : Type*}

/-- The value of `k`, unless it has expired. -/
def get [LT T] [DecidableLT T] (cache : Cache K V T) (k : K) (now : T) : Option V :=
  (cache k).bind fun e => if now < e.2 then some e.1 else none

/-- Set `k` to `v` for the span `ttl`. -/
def setex [DecidableEq K] [Add T] (cache : Cache K V T) (k : K) (v : V) (now ttl : T) :
    Cache K V T :=
  Function.update cache k (some (v, now + ttl))

/-- A value that is looked at, and when the cache is read and written for it. -/
structure Look (K V T : Type*) where
  key : K
  value : V
  readAt : T
  writeAt : T

/-! ## Reading and setting -/

section

variable {cache cache' : Cache K V T} {j k : K} {v : V} {now ttl until' : T}

theorem get_of_eq [LT T] [DecidableLT T] (h : cache k = some (v, until')) (hlt : now < until') :
    cache.get k now = some v := by
  unfold get
  rw [h, Option.bind_some, if_pos hlt]

theorem get_congr [LT T] [DecidableLT T] (h : cache k = cache' k) :
    cache.get k now = cache'.get k now := by
  unfold get
  rw [h]

/-- What is read has been set. -/
theorem eq_of_get [LT T] [DecidableLT T] (h : cache.get k now = some v) :
    ∃ until', cache k = some (v, until') := by
  unfold get at h
  obtain ⟨⟨w, until'⟩, hk, hw⟩ := Option.bind_eq_some_iff.mp h
  split at hw
  · obtain rfl := Option.some.inj hw
    exact ⟨until', hk⟩
  · cases hw

@[simp] theorem setex_self [DecidableEq K] [Add T] :
    cache.setex k v now ttl k = some (v, now + ttl) :=
  Function.update_self _ _ _

theorem setex_of_ne [DecidableEq K] [Add T] (h : j ≠ k) : cache.setex k v now ttl j = cache j :=
  Function.update_of_ne h _ _

end

/-! ## Looking for changes -/

section

variable [DecidableEq K] [DecidableEq V] [LT T] [DecidableLT T] [Add T] {ttl : T}
  {cache : Cache K V T} {l : Look K V T} {ls : List (Look K V T)} {k : K}

/-- The cache holds the value when it is looked at. -/
def Look.known (cache : Cache K V T) (l : Look K V T) : Bool :=
  cache.get l.key l.readAt = some l.value

/-- The cache after a look. -/
def look (ttl : T) (cache : Cache K V T) (l : Look K V T) : Cache K V T :=
  if l.known cache then cache else cache.setex l.key l.value l.writeAt ttl

def lookAll (ttl : T) (cache : Cache K V T) (ls : List (Look K V T)) : Cache K V T :=
  ls.foldl (look ttl) cache

/-- The number of values that were not known when they were looked at. -/
def changes (ttl : T) (cache : Cache K V T) : List (Look K V T) → ℕ
  | [] => 0
  | l :: ls => (if l.known cache then 0 else 1) + changes ttl (look ttl cache l) ls

theorem look_of_ne (h : k ≠ l.key) : look ttl cache l k = cache k := by
  unfold look
  split
  · rfl
  · exact setex_of_ne h

theorem lookAll_of_not_mem (h : k ∉ ls.map Look.key) : lookAll ttl cache ls k = cache k := by
  induction ls generalizing cache with
  | nil => rfl
  | cons l ls ih =>
    have hne : k ≠ l.key := fun heq => h (heq ▸ List.mem_cons_self)
    have hnot : k ∉ ls.map Look.key := fun hmem => h (List.mem_cons_of_mem _ hmem)
    calc lookAll ttl cache (l :: ls) k = lookAll ttl (look ttl cache l) ls k := rfl
      _ = look ttl cache l k := ih hnot
      _ = cache k := look_of_ne hne

/-- After a look the cache holds the value, known or not. -/
theorem exists_look_self : ∃ until', look ttl cache l l.key = some (l.value, until') := by
  unfold look
  split
  · next hknown => exact eq_of_get (of_decide_eq_true hknown)
  · exact ⟨_, setex_self⟩

/-- After a loop over different keys the cache holds each value that has been looked at. -/
theorem exists_lookAll_of_mem (hnodup : (ls.map Look.key).Nodup) (hl : l ∈ ls) :
    ∃ until', lookAll ttl cache ls l.key = some (l.value, until') := by
  induction ls generalizing cache with
  | nil => cases hl
  | cons l' ls ih =>
    obtain ⟨hnot, hnodup⟩ := List.nodup_cons.mp hnodup
    rcases List.mem_cons.mp hl with rfl | hl
    · obtain ⟨until', huntil⟩ : ∃ until', look ttl cache l l.key = some (l.value, until') :=
        exists_look_self
      exact ⟨until', (lookAll_of_not_mem hnot).trans huntil⟩
    · exact ih hnodup hl

/-- Over different keys the loop counts what the cache did not hold before it. -/
theorem changes_eq_countP (hnodup : (ls.map Look.key).Nodup) :
    changes ttl cache ls = ls.countP fun l => !l.known cache := by
  induction ls generalizing cache with
  | nil => rfl
  | cons l ls ih =>
    obtain ⟨hnot, hnodup⟩ := List.nodup_cons.mp hnodup
    -- the head has another key than the rest, and changes nothing for it
    have hrest : ls.countP (fun l' => !l'.known (look ttl cache l)) =
        ls.countP fun l' => !l'.known cache := by
      refine List.countP_congr fun l' hl' => ?_
      have hne : l'.key ≠ l.key := fun heq => hnot (heq ▸ List.mem_map_of_mem hl')
      have hlook : look ttl cache l l'.key = cache l'.key := look_of_ne hne
      unfold Look.known
      rw [get_congr hlook]
    rw [changes, ih hnodup, hrest, List.countP_cons, Nat.add_comm]
    cases l.known cache with
    | true => rfl
    | false => rfl

/-- A loop that looks at known values only finds no change. -/
theorem changes_eq_zero (hnodup : (ls.map Look.key).Nodup)
    (hknown : ∀ l ∈ ls, l.known cache = true) : changes ttl cache ls = 0 := by
  rw [changes_eq_countP hnodup, List.countP_eq_zero]
  intro l hl
  rw [hknown l hl]
  exact Bool.false_ne_true

end

end Cache
end LeadPulse
