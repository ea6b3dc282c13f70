import Mathlib.Computability.Language
import Mathlib.Data.List.TakeWhile

/-!
# Backtracking

A matcher of a backtracking regular expression engine tells, for a text, what it may take off
its front and what is left then, in the order in which the engine tries. Repetitions are greedy:
they try to take more before they try to take less.

* `Denotes m L`: the matches of `m` are the words of the language `L`, with `denotes_lit`,
  `denotes_cat`, `denotes_opt` and `denotes_manyOf` for the operators;
* `matchGroup m g` is the group `g` of `re.match` of `m(g)`, and `search m g` of `re.search`;
  `search_eq_some_iff` says that a search stops at the first place where there is a match;
* `head?_manyOf`: what a repetition takes first is all that it can.
-/

namespace LeadPulse
namespace Backtrack

variable {α : Type*}

/-- What is taken and what is left, in the order in which it is tried. -/
abbrev Matcher (α : Type*) := List α → List (List α × List α)

def lit [DecidableEq α] (w : List α) : Matcher α := fun s =>
  if w <+: s then [(w, s.drop w.length)] else []

def cat (m m' : Matcher α) : Matcher α := fun s =>
  (m s).flatMap fun x => (m' x.2).map fun y => (x.1 ++ y.1, y.2)

/-- `m?` -/
def opt (m : Matcher α) : Matcher α := fun s => m s ++ [([], s)]

/-- `[p]+` -/
def manyOf (p : α → Bool) : Matcher α := fun s =>
  (List.range (s.takeWhile p).length).reverse.map fun n => (s.take (n + 1), s.drop (n + 1))

/-- `re.match` of `m(g)`: what the group has taken. -/
def matchGroup (m g : Matcher α) (s : List α) : Option (List α) :=
  (m s).findSome? fun x => (g x.2).head?.map Prod.fst

/-- `re.search` of `m(g)`. -/
def search (m g : Matcher α) : List α → Option (List α)
  | [] => matchGroup m g []
  | c :: s => (matchGroup m g (c :: s)).or (search m g s)

/-! ## Languages -/

/-- The matcher takes the words of the language. -/
def Denotes (m : Matcher α) (L : Language α) : Prop :=
  ∀ s a t, (a, t) ∈ m s ↔ s = a ++ t ∧ a ∈ L

/-- The language of one word. -/
def word (w : List α) : Language α := {w}

theorem mem_word {a w : List α} : a ∈ word w ↔ a = w := Set.mem_singleton_iff

theorem word_mul_word (w v : List α) : word w * word v = word (w ++ v) := by
  ext a
  simp only [Language.mem_mul, mem_word, exists_eq_left]
  exact eq_comm

/-- The words of at least one character, all of them in a class. -/
def wordsOf (p : α → Bool) : Language α := ({w | w ≠ [] ∧ w.all p = true} : Set (List α))

theorem mem_wordsOf {p : α → Bool} {a : List α} : a ∈ wordsOf p ↔ a ≠ [] ∧ a.all p = true := Iff.rfl

theorem denotes_lit [DecidableEq α] (w : List α) : Denotes (lit w) (word w) := by
  intro s a t
  rw [mem_word]
  unfold lit
  split
  · rename_i hw
    obtain ⟨u, rfl⟩ := hw
    rw [List.drop_left, List.mem_singleton, Prod.mk.injEq]
    constructor
    · rintro ⟨rfl, rfl⟩
      exact ⟨rfl, rfl⟩
    · rintro ⟨heq, rfl⟩
      exact ⟨rfl, (List.append_cancel_left heq).symm⟩
  · rename_i hw
    constructor
    · exact fun h => nomatch h
    · rintro ⟨heq, rfl⟩
      exact absurd ⟨t, heq.symm⟩ hw

theorem denotes_cat {m m' : Matcher α} {L L' : Language α} (h : Denotes m L)
    (h' : Denotes m' L') : Denotes (cat m m') (L * L') := by
  intro s a t
  unfold cat
  rw [List.mem_flatMap, Language.mem_mul]
  constructor
  · rintro ⟨⟨b, u⟩, hb, hmem⟩
    obtain ⟨⟨c, v⟩, hc, heq⟩ := List.mem_map.mp hmem
    obtain ⟨rfl, rfl⟩ := Prod.mk.inj heq
    obtain ⟨rfl, hbL⟩ := (h s b u).mp hb
    obtain ⟨rfl, hcL⟩ := (h' u c v).mp hc
    exact ⟨(List.append_assoc b c v).symm, b, hbL, c, hcL, rfl⟩
  · rintro ⟨rfl, b, hbL, c, hcL, rfl⟩
    refine ⟨(b, c ++ t), (h _ _ _).mpr ⟨List.append_assoc b c t, hbL⟩, ?_⟩
    exact List.mem_map.mpr ⟨(c, t), (h' _ _ _).mpr ⟨rfl, hcL⟩, rfl⟩

theorem denotes_opt {m : Matcher α} {L : Language α} (h : Denotes m L) :
    Denotes (opt m) (L + 1) := by
  intro s a t
  unfold opt
  rw [List.mem_append, h s a t, List.mem_singleton, Prod.mk.injEq, Language.mem_add,
    Language.mem_one]
  constructor
  · rintro (⟨heq, ha⟩ | ⟨rfl, rfl⟩)
    · exact ⟨heq, Or.inl ha⟩
    · exact ⟨rfl, Or.inr rfl⟩
  · rintro ⟨heq, ha | rfl⟩
    · exact Or.inl ⟨heq, ha⟩
    · exact Or.inr ⟨rfl, heq.symm⟩

theorem denotes_manyOf (p : α → Bool) : Denotes (manyOf p) (wordsOf p) := by
  intro s a t
  unfold manyOf
  rw [List.mem_map, mem_wordsOf]
  constructor
  · rintro ⟨n, hn, heq⟩
    obtain ⟨rfl, rfl⟩ := Prod.mk.inj heq
    rw [List.mem_reverse, List.mem_range] at hn
    have hlen := (List.takeWhile_prefix (l := s) p).length_le
    refine ⟨(List.take_append_drop (n + 1) s).symm, ?_, ?_⟩
    · intro hnil
      have hzero := congrArg List.length hnil
      rw [List.length_take, List.length_nil] at hzero
      omega
    · -- what is taken is a part of the run
      have hpre : s.take (n + 1) <+: s.takeWhile p := by
        rw [List.prefix_iff_eq_take.mp (List.takeWhile_prefix p)]
        exact (List.take_prefix_take_left (by omega))
      rw [List.all_eq_true]
      exact fun x hx => List.mem_takeWhile_imp (hpre.subset hx)
  · rintro ⟨rfl, hne, hall⟩
    have hpos := List.length_pos_iff.mpr hne
    have hrun : (a ++ t).takeWhile p = a ++ t.takeWhile p :=
      List.takeWhile_append_of_pos (List.all_eq_true.mp hall)
    refine ⟨a.length - 1, ?_, ?_⟩
    · rw [List.mem_reverse, List.mem_range, hrun, List.length_append]
      omega
    · rw [Nat.sub_add_cancel hpos, List.take_left, List.drop_left]

/-- A greedy repetition takes all that it can first. -/
theorem head?_manyOf (p : α → Bool) (s : List α) :
    (manyOf p s).head?.map Prod.fst =
      if s.takeWhile p = [] then none else some (s.takeWhile p) := by
  unfold manyOf
  rw [List.head?_map, List.head?_reverse, Option.map_map]
  split
  · rename_i hnil
    rw [hnil]
    rfl
  · rename_i hne
    have hpos := List.length_pos_iff.mpr hne
    rw [List.getLast?_range, if_neg (Nat.ne_of_gt hpos), Option.map_some, Function.comp_apply,
      Nat.sub_add_cancel hpos]
    exact congrArg some (List.prefix_iff_eq_take.mp (List.takeWhile_prefix p)).symm

theorem head?_manyOf_eq_some_iff {p : α → Bool} {s w : List α} :
    (manyOf p s).head?.map Prod.fst = some w ↔ ∃ after, s = w ++ after ∧ w ≠ [] ∧
      w.all p = true ∧ ∀ c ∈ after.head?, p c = false := by
  rw [head?_manyOf]
  constructor
  · intro h
    split at h
    · cases h
    · rename_i hne
      cases h
      refine ⟨s.dropWhile p, List.takeWhile_append_dropWhile.symm, hne, ?_, ?_⟩
      · rw [List.all_eq_true]
        exact fun x hx => List.mem_takeWhile_imp hx
      · intro c hc
        cases hdrop : s.dropWhile p with
        | nil => simp [hdrop] at hc
        | cons d rest =>
          have hd := List.head?_dropWhile_not p s
          simp only [hdrop, List.head?_cons, Option.mem_some_iff] at hc hd
          subst hc
          simpa using hd
  · rintro ⟨after, rfl, hne, hall, hend⟩
    have hstop : after.takeWhile p = [] := by
      cases after with
      | nil => rfl
      | cons c rest => rw [List.takeWhile_cons, if_neg (by simp [hend c rfl])]
    rw [List.takeWhile_append_of_pos (List.all_eq_true.mp hall), hstop, List.append_nil,
      if_neg hne]

/-- Where no word of the language in front of the group goes on as another one, there is one way
to match. -/
theorem matchGroup_eq_some_iff {m g : Matcher α} {L : Language α} (hm : Denotes m L)
    (hfree : ∀ a ∈ L, ∀ b ∈ L, a <+: b → a = b) {s w : List α} :
    matchGroup m g s = some w ↔
      ∃ a ∈ L, ∃ t, s = a ++ t ∧ (g t).head?.map Prod.fst = some w := by
  unfold matchGroup
  constructor
  · intro h
    obtain ⟨⟨a, t⟩, hmem, hg⟩ := List.exists_of_findSome?_eq_some h
    obtain ⟨heq, ha⟩ := (hm s a t).mp hmem
    exact ⟨a, ha, t, heq, hg⟩
  · rintro ⟨a, ha, t, rfl, hg⟩
    have hmem : (a, t) ∈ m (a ++ t) := (hm _ _ _).mpr ⟨rfl, ha⟩
    cases hfind : (m (a ++ t)).findSome? fun x => (g x.2).head?.map Prod.fst with
    | none =>
      rw [List.findSome?_eq_none_iff.mp hfind (a, t) hmem] at hg
      cases hg
    | some v =>
      obtain ⟨⟨b, u⟩, hmem', hg'⟩ := List.exists_of_findSome?_eq_some hfind
      obtain ⟨heq, hb⟩ := (hm _ b u).mp hmem'
      -- one of the two words goes on as the other
      have hab : a = b := by
        rcases List.prefix_or_prefix_of_prefix (List.prefix_append a t)
          (heq ▸ List.prefix_append b u) with hpre | hpre
        · exact hfree a ha b hb hpre
        · exact (hfree b hb a ha hpre).symm
      subst hab
      obtain rfl := List.append_cancel_left heq
      exact hg'.symm.trans hg

/-! ## Where a search stops -/

theorem search_eq_none_iff {m g : Matcher α} {s : List α} :
    search m g s = none ↔ ∀ before t, s = before ++ t → matchGroup m g t = none := by
  induction s with
  | nil =>
    constructor
    · intro h before t heq
      obtain ⟨-, rfl⟩ := List.append_eq_nil_iff.mp heq.symm
      exact h
    · exact fun h => h [] [] rfl
  | cons c s ih =>
    rw [search, Option.or_eq_none_iff, ih]
    constructor
    · rintro ⟨hhere, hlater⟩ before t heq
      cases before with
      | nil =>
        rw [List.nil_append] at heq
        rwa [← heq]
      | cons d before => exact hlater before t (List.cons.inj heq).2
    · intro h
      exact ⟨h [] _ rfl, fun before t heq => h (c :: before) t (by rw [heq, List.cons_append])⟩

/-- A search stops at the first place where there is a match. -/
theorem search_eq_some_iff {m g : Matcher α} {s x : List α} :
    search m g s = some x ↔ ∃ before t, s = before ++ t ∧ matchGroup m g t = some x ∧
      ∀ before' t', s = before' ++ t' → before'.length < before.length →
        matchGroup m g t' = none := by
  induction s with
  | nil =>
    constructor
    · exact fun h => ⟨[], [], rfl, h, fun _ _ _ hlt => absurd hlt (Nat.not_lt_zero _)⟩
    · rintro ⟨before, t, heq, h, -⟩
      obtain ⟨-, rfl⟩ := List.append_eq_nil_iff.mp heq.symm
      exact h
  | cons c s ih =>
    rw [search]
    cases hhere : matchGroup m g (c :: s) with
    | some y =>
      rw [Option.some_or, Option.some.injEq]
      constructor
      · rintro rfl
        exact ⟨[], c :: s, rfl, hhere, fun _ _ _ hlt => absurd hlt (Nat.not_lt_zero _)⟩
      · rintro ⟨before, t, heq, h, hfirst⟩
        cases before with
        | nil =>
          rw [List.nil_append] at heq
          rw [heq, h] at hhere
          exact (Option.some.inj hhere).symm
        | cons d before =>
          have hnone := hfirst [] (c :: s) rfl (Nat.succ_pos _)
          rw [hhere] at hnone
          cases hnone
    | none =>
      rw [Option.none_or, ih]
      constructor
      · rintro ⟨before, t, heq, h, hfirst⟩
        refine ⟨c :: before, t, by rw [heq, List.cons_append], h, ?_⟩
        intro before' t' heq' hlt
        cases before' with
        | nil =>
          rw [List.nil_append] at heq'
          rwa [← heq']
        | cons d before' =>
          exact hfirst before' t' (List.cons.inj heq').2 (Nat.lt_of_succ_lt_succ hlt)
      · rintro ⟨before, t, heq, h, hfirst⟩
        cases before with
        | nil =>
          rw [List.nil_append] at heq
          rw [heq, h] at hhere
          cases hhere
        | cons d before =>
          refine ⟨before, t, (List.cons.inj heq).2, h, fun before' t' heq' hlt => ?_⟩
          exact hfirst (c :: before') t' (by rw [heq', List.cons_append]) (Nat.succ_lt_succ hlt)

end Backtrack
end LeadPulse
