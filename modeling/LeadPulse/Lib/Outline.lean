import Mathlib.Data.List.Basic
import Mathlib.Tactic.Common

/-!
# Outlines

A text made of points, one to a line. Each point has a label, and a body if there is anything to
say; only the points with a body are written, numbered without gaps. A body may be a list of items
with a separator between them.

What an outline says can be read off it again, under two conditions: no item has the first letter
of its separator in it (`intercalate_inj`), and no two labels begin with the same letter
(`points_inj`).
-/

namespace LeadPulse
namespace Outline

variable {α : Type*}

/-! ## Items -/

/-- Two texts that go up to the same mark for the first time. -/
theorem append_cons_inj {c : α} {x y rest rest' : List α} (hx : c ∉ x) (hy : c ∉ y)
    (h : x ++ c :: rest = y ++ c :: rest') : x = y ∧ rest = rest' := by
  induction x generalizing y with
  | nil =>
    cases y with
    | nil => exact ⟨rfl, (List.cons.inj h).2⟩
    | cons b y => exact absurd ((List.cons.inj h).1 ▸ List.mem_cons_self) hy
  | cons a x ih =>
    cases y with
    | nil => exact absurd ((List.cons.inj h).1 ▸ List.mem_cons_self) hx
    | cons b y =>
      obtain ⟨rfl, htail⟩ := List.cons.inj h
      obtain ⟨rfl, hrest⟩ :=
        ih (List.not_mem_of_not_mem_cons hx) (List.not_mem_of_not_mem_cons hy) htail
      exact ⟨rfl, hrest⟩

theorem mem_of_mem_intercalate {a : α} {sep : List α} {xs : List (List α)}
    (h : a ∈ sep.intercalate xs) : a ∈ sep ∨ ∃ x ∈ xs, a ∈ x := by
  induction xs with
  | nil => cases h
  | cons x xs ih =>
    cases xs with
    | nil =>
      rw [List.intercalate_singleton] at h
      exact .inr ⟨x, List.mem_cons_self, h⟩
    | cons x' xs =>
      rw [List.intercalate_cons_cons, List.append_assoc, List.mem_append, List.mem_append] at h
      rcases h with h | h | h
      · exact .inr ⟨x, List.mem_cons_self, h⟩
      · exact .inl h
      · exact (ih h).imp_right fun ⟨y, hy, ha⟩ => ⟨y, List.mem_cons_of_mem _ hy, ha⟩

theorem intercalate_inj {c : α} {sep : List α} {xs ys : List (List α)} (hx : ∀ x ∈ xs, c ∉ x)
    (hy : ∀ y ∈ ys, c ∉ y) (hxs : xs ≠ []) (hys : ys ≠ []) :
    (c :: sep).intercalate xs = (c :: sep).intercalate ys ↔ xs = ys := by
  refine ⟨fun h => ?_, fun h => congrArg _ h⟩
  induction xs generalizing ys with
  | nil => exact absurd rfl hxs
  | cons x xs ih =>
    obtain ⟨y, ys, rfl⟩ := List.exists_cons_of_ne_nil hys
    obtain ⟨hcx, hcxs⟩ := List.forall_mem_cons.mp hx
    obtain ⟨hcy, hcys⟩ := List.forall_mem_cons.mp hy
    cases xs with
    | nil =>
      cases ys with
      | nil => simpa using h
      | cons y' ys =>
        -- the separator would have to be in the only item
        rw [List.intercalate_singleton, List.intercalate_cons_cons] at h
        exact absurd (h ▸ List.mem_append_left _ (List.mem_append_right y List.mem_cons_self)) hcx
    | cons x' xs =>
      cases ys with
      | nil =>
        rw [List.intercalate_singleton, List.intercalate_cons_cons] at h
        exact absurd (h ▸ List.mem_append_left _ (List.mem_append_right x List.mem_cons_self)) hcy
      | cons y' ys =>
        rw [List.intercalate_cons_cons, List.intercalate_cons_cons, List.append_assoc,
          List.append_assoc, List.cons_append, List.cons_append] at h
        obtain ⟨rfl, hrest⟩ := append_cons_inj hcx hcy h
        have hitems : x' :: xs = y' :: ys :=
          ih hcxs hcys (List.cons_ne_nil _ _) (List.cons_ne_nil _ _) (List.append_cancel_left hrest)
        rw [hitems]

/-! ## Points -/

/-- The points with a body, each after its label. -/
def points : List (List α) → List (Option (List α)) → List (List α)
  | label :: labels, body :: bodies =>
    (body.map (label ++ ·)).toList ++ points labels bodies
  | _, _ => []

variable {labels : List (List α)} {bodies bodies' : List (Option (List α))} {line : List α}

/-- A line is a label with its body. -/
theorem mem_points (h : line ∈ points labels bodies) :
    ∃ label ∈ labels, ∃ text, some text ∈ bodies ∧ line = label ++ text := by
  induction labels generalizing bodies with
  | nil => cases h
  | cons label labels ih =>
    cases bodies with
    | nil => cases h
    | cons body bodies =>
      rcases List.mem_append.mp h with h | h
      · obtain ⟨text, rfl, rfl⟩ := Option.map_eq_some_iff.mp (Option.mem_toList.mp h)
        exact ⟨label, List.mem_cons_self, text, List.mem_cons_self, rfl⟩
      · obtain ⟨l, hl, text, htext, rfl⟩ := ih h
        exact ⟨l, List.mem_cons_of_mem _ hl, text, List.mem_cons_of_mem _ htext, rfl⟩

/-- A point begins as its label does. -/
theorem head_of_mem_points (hne : ∀ label ∈ labels, label ≠ [])
    (h : line ∈ points labels bodies) : ∃ label ∈ labels, line.head? = label.head? := by
  obtain ⟨label, hlabel, text, -, rfl⟩ := mem_points h
  exact ⟨label, hlabel, List.head?_append_of_ne_nil _ (hne label hlabel)⟩

theorem points_inj (hne : ∀ label ∈ labels, label ≠ [])
    (hheads : labels.Pairwise fun l m => l.head? ≠ m.head?)
    (hlen : bodies.length = labels.length) (hlen' : bodies'.length = labels.length) :
    points labels bodies = points labels bodies' ↔ bodies = bodies' := by
  refine ⟨fun h => ?_, fun h => congrArg _ h⟩
  induction labels generalizing bodies bodies' with
  | nil =>
    rw [List.length_nil] at hlen hlen'
    rw [List.eq_nil_of_length_eq_zero hlen, List.eq_nil_of_length_eq_zero hlen']
  | cons label labels ih =>
    obtain ⟨body, bodies, rfl⟩ := List.exists_cons_of_length_eq_add_one hlen
    obtain ⟨body', bodies', rfl⟩ := List.exists_cons_of_length_eq_add_one hlen'
    obtain ⟨hlabel, hne⟩ := List.forall_mem_cons.mp hne
    obtain ⟨hhead, hheads⟩ := List.pairwise_cons.mp hheads
    have htail := ih hne hheads (Nat.succ.inj hlen) (Nat.succ.inj hlen')
    -- a point with this label is not among the others
    have hother (text : List α) (rest : List (List α)) (others : List (Option (List α)))
        (heq : (label ++ text) :: rest = points labels others) : False := by
      obtain ⟨m, hm, hmhead⟩ := head_of_mem_points hne (heq ▸ List.mem_cons_self)
      rw [List.head?_append_of_ne_nil _ hlabel] at hmhead
      exact hhead m hm hmhead
    cases body with
    | none =>
      cases body' with
      | none => rw [htail h]
      | some text' => exact (hother text' _ bodies h.symm).elim
    | some text =>
      cases body' with
      | none => exact (hother text _ bodies' h).elim
      | some text' =>
        obtain ⟨hline, hrest⟩ := List.cons.inj h
        rw [List.append_cancel_left hline, htail hrest]

/-! ## Numbers -/

/-- The lines, each with the mark of its number, which is `i` for the first one. -/
def numbered (mark : ℕ → List α) : ℕ → List (List α) → List (List α)
  | _, [] => []
  | i, line :: lines => (mark i ++ line) :: numbered mark (i + 1) lines

variable {mark : ℕ → List α} {i k : ℕ} {lines lines' : List (List α)}

theorem numbered_inj : numbered mark i lines = numbered mark i lines' ↔ lines = lines' := by
  refine ⟨fun h => ?_, fun h => congrArg _ h⟩
  induction lines generalizing i lines' with
  | nil =>
    cases lines' with
    | nil => rfl
    | cons line' lines' => cases h
  | cons line lines ih =>
    cases lines' with
    | nil => cases h
    | cons line' lines' =>
      obtain ⟨hline, hrest⟩ := List.cons.inj h
      rw [List.append_cancel_left hline, ih hrest]

theorem getElem?_numbered :
    (numbered mark i lines)[k]? = lines[k]?.map (mark (i + k) ++ ·) := by
  induction lines generalizing i k with
  | nil => rfl
  | cons line lines ih =>
    cases k with
    | zero => rfl
    | succ k =>
      show (numbered mark (i + 1) lines)[k]? = lines[k]?.map _
      rw [ih, Nat.add_assoc, Nat.add_comm 1 k]

theorem mem_numbered (h : line ∈ numbered mark i lines) :
    ∃ j, ∃ l ∈ lines, line = mark j ++ l := by
  obtain ⟨k, hk⟩ := List.mem_iff_getElem?.mp h
  rw [getElem?_numbered] at hk
  obtain ⟨l, hl, rfl⟩ := Option.map_eq_some_iff.mp hk
  exact ⟨i + k, l, List.mem_of_getElem? hl, rfl⟩

end Outline
end LeadPulse
