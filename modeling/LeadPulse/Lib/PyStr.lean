import Mathlib.Data.List.DropRight
import Mathlib.Data.List.TakeWhile
import Mathlib.Tactic.Common

/-!
# Python strings

The methods of `str` that a program uses to cut strings up, over `List Char`, and the
lemmas about what is left of the characters.

* `isSpace`, `strip`: white space as `str.isspace` and `str.strip` see it;
* `upTo c s`, `past c s`, `pastLast c s`: `s.partition(c)[0]`, `s.partition(c)[2]` and
  `s.rpartition(c)[2]`; `upTo c s` is also `s.split(c)[0]`;
* `stripPrefix p s`: `s` without `p` at its front, if it is there;
* `rstripChar c s`, `stripChar c s`: `s.rstrip(c)` and `s.strip(c)` for a single character;
* `parts c s`: `[p for p in s.split(c) if p]`, and `words s`: `s.split()`.
-/

namespace LeadPulse
namespace PyStr

/-! ## Cutting -/

/-- The characters for which `str.isspace` holds. -/
def isSpace (c : Char) : Bool :=
  let n := c.toNat
  (0x09 ≤ n ∧ n ≤ 0x0D) ∨ (0x1C ≤ n ∧ n ≤ 0x20) ∨ (0x2000 ≤ n ∧ n ≤ 0x200A) ∨
    n ∈ [0x85, 0xA0, 0x1680, 0x2028, 0x2029, 0x202F, 0x205F, 0x3000]

def rstripChar (c : Char) (s : List Char) : List Char := s.rdropWhile (· == c)

def stripChar (c : Char) (s : List Char) : List Char := rstripChar c (s.dropWhile (· == c))

def strip (s : List Char) : List Char := (s.dropWhile isSpace).rdropWhile isSpace

def upTo (c : Char) (s : List Char) : List Char := s.takeWhile (· != c)

def past (c : Char) (s : List Char) : List Char := (s.dropWhile (· != c)).tail

def pastLast (c : Char) (s : List Char) : List Char := s.rtakeWhile (· != c)

def stripPrefix (p s : List Char) : List Char := if p <+: s then s.drop p.length else s

def parts (sep : Char) (s : List Char) : List (List Char) :=
  (s.splitOn sep).filter fun p => p ≠ []

def words (s : List Char) : List (List Char) := (s.splitOnP isSpace).filter fun w => w ≠ []

/-! ## What the pieces are made of -/

theorem not_mem_upTo (c : Char) (s : List Char) : c ∉ upTo c s := by
  intro h
  have := List.mem_takeWhile_imp h
  simp at this

theorem mem_of_mem_upTo {c x : Char} {s : List Char} (h : x ∈ upTo c s) : x ∈ s :=
  (List.takeWhile_prefix _).subset h

theorem mem_of_mem_past {c x : Char} {s : List Char} (h : x ∈ past c s) : x ∈ s :=
  (List.dropWhile_suffix _).subset (List.mem_of_mem_tail h)

theorem mem_of_mem_pastLast {c x : Char} {s : List Char} (h : x ∈ pastLast c s) : x ∈ s :=
  (List.rtakeWhile_suffix _ s).subset h

theorem mem_of_mem_rstripChar {c x : Char} {s : List Char} (h : x ∈ rstripChar c s) : x ∈ s :=
  (List.rdropWhile_prefix _ s).subset h

theorem mem_of_mem_stripPrefix {p s : List Char} {x : Char} (h : x ∈ stripPrefix p s) :
    x ∈ s := by
  unfold stripPrefix at h
  split at h
  · exact List.mem_of_mem_drop h
  · exact h

/-! ## Cutting a string that is put together -/

theorem upTo_of_not_mem {c : Char} {s : List Char} (hs : c ∉ s) : upTo c s = s := by
  unfold upTo
  rw [List.takeWhile_eq_self_iff]
  intro x hx
  have : x ≠ c := fun h => hs (h ▸ hx)
  simpa using this

theorem upTo_append_cons {c : Char} {a : List Char} (ha : c ∉ a) (b : List Char) :
    upTo c (a ++ c :: b) = a := by
  unfold upTo
  rw [List.takeWhile_append_of_pos, List.takeWhile_cons, if_neg (by simp), List.append_nil]
  intro x hx
  have hne : x ≠ c := fun h => ha (h ▸ hx)
  simpa using hne

theorem upTo_append_past {c : Char} {s : List Char} (h : c ∈ s) :
    upTo c s ++ c :: past c s = s := by
  unfold upTo past
  induction s with
  | nil => cases h
  | cons d s ih =>
    by_cases hdc : d = c
    · simp [hdc]
    · have hmem : c ∈ s := (List.mem_cons.mp h).resolve_left fun heq => hdc heq.symm
      simpa [hdc] using ih hmem

@[simp] theorem stripPrefix_append (p s : List Char) : stripPrefix p (p ++ s) = s := by
  simp [stripPrefix]

theorem stripPrefix_of_not {p s : List Char} (h : ¬ p <+: s) : stripPrefix p s = s := by
  simp [stripPrefix, h]

/-- Either the prefix was there and has gone, or nothing has happened. -/
theorem stripPrefix_cases (p s : List Char) :
    s = p ++ stripPrefix p s ∨ (¬ p <+: s ∧ stripPrefix p s = s) := by
  by_cases h : p <+: s
  · obtain ⟨t, rfl⟩ := h
    left
    rw [stripPrefix_append]
  · exact Or.inr ⟨h, stripPrefix_of_not h⟩

theorem rstripChar_sublist (c : Char) (s : List Char) : (rstripChar c s).Sublist s :=
  (List.rdropWhile_prefix _ s).sublist

theorem rstripChar_of_getLast? {c : Char} {s : List Char} (h : s.getLast? ≠ some c) :
    rstripChar c s = s := by
  unfold rstripChar
  rw [List.rdropWhile_eq_self_iff]
  intro hs hc
  apply h
  rw [List.getLast?_eq_some_getLast hs, eq_of_beq hc]

/-- What `rstrip` takes off the end is a run of the character. -/
theorem eq_rstripChar_append (c : Char) (s : List Char) :
    ∃ n, s = rstripChar c s ++ List.replicate n c := by
  refine ⟨(s.rtakeWhile (· == c)).length, ?_⟩
  -- the characters that are taken off are all equal to `c`
  have hrep : s.rtakeWhile (· == c) = List.replicate (s.rtakeWhile (· == c)).length c := by
    rw [List.eq_replicate_iff]
    exact ⟨rfl, fun b hb => by simpa using List.mem_rtakeWhile_imp hb⟩
  rw [← hrep]
  exact List.rdropWhile_append_rtakeWhile.symm

theorem rstripChar_append_replicate {c : Char} {s : List Char} (h : s.getLast? ≠ some c)
    (n : ℕ) : rstripChar c (s ++ List.replicate n c) = s := by
  have hs := rstripChar_of_getLast? h
  unfold rstripChar at hs ⊢
  rw [List.rdropWhile, List.reverse_append, List.reverse_replicate,
    List.dropWhile_append_of_pos]
  · exact hs
  · intro x hx
    rw [List.eq_of_mem_replicate hx]
    simp

theorem getLast?_rstripChar (c : Char) (s : List Char) : (rstripChar c s).getLast? ≠ some c := by
  intro h
  have hs : rstripChar c s ≠ [] := by
    rintro hnil
    rw [hnil] at h
    cases h
  have hlast := List.rdropWhile_last_not (· == c) s hs
  rw [List.getLast?_eq_some_getLast hs] at h
  exact hlast (beq_iff_eq.mpr (Option.some.inj h))

theorem rstripChar_eq_self_iff {c : Char} {s : List Char} :
    rstripChar c s = s ↔ s.getLast? ≠ some c := by
  constructor
  · intro h
    rw [← h]
    exact getLast?_rstripChar c s
  · exact rstripChar_of_getLast?

/-- What is in front of another character stays. -/
theorem rstripChar_append {c : Char} {s : List Char} (h : ∃ d ∈ s, d ≠ c) (p : List Char) :
    rstripChar c (p ++ s) = p ++ rstripChar c s := by
  obtain ⟨n, hn⟩ := eq_rstripChar_append c s
  have hne : rstripChar c s ≠ [] := by
    intro hnil
    obtain ⟨d, hd, hdc⟩ := h
    rw [hnil, List.nil_append] at hn
    rw [hn] at hd
    exact hdc (List.eq_of_mem_replicate hd)
  have hlast : (p ++ rstripChar c s).getLast? ≠ some c := by
    rw [List.getLast?_append_of_ne_nil p hne]
    exact getLast?_rstripChar c s
  calc rstripChar c (p ++ s)
      = rstripChar c ((p ++ rstripChar c s) ++ List.replicate n c) := by
        rw [List.append_assoc, ← hn]
    _ = p ++ rstripChar c s := rstripChar_append_replicate hlast n

/-! ## Splitting -/

theorem eq_or_mem_of_mem_intercalate {sep c : Char} {ls : List (List Char)}
    (h : c ∈ [sep].intercalate ls) : c = sep ∨ ∃ p ∈ ls, c ∈ p := by
  induction ls with
  | nil => simp at h
  | cons l ls ih =>
    rcases ls with _ | ⟨l', ls⟩
    · exact Or.inr ⟨l, by simp, by simpa using h⟩
    · rw [List.intercalate_cons_cons, List.append_assoc, List.mem_append,
        List.singleton_append, List.mem_cons] at h
      rcases h with h | h | h
      · exact Or.inr ⟨l, by simp, h⟩
      · exact Or.inl h
      · rcases ih h with h | ⟨p, hp, hc⟩
        · exact Or.inl h
        · exact Or.inr ⟨p, by simp [List.mem_cons.mp hp], hc⟩

/-- A character of a string is the separator or is in one of the parts. -/
theorem eq_or_mem_splitOn (sep : Char) {c : Char} {s : List Char} (h : c ∈ s) :
    c = sep ∨ ∃ p ∈ s.splitOn sep, c ∈ p := by
  have hjoin : [sep].intercalate (s.splitOn sep) = s := List.intercalate_splitOn sep
  rw [← hjoin] at h
  exact eq_or_mem_of_mem_intercalate h

/-- Joining the parts writes the separator behind each of them but the last. -/
theorem intercalate_concat (sep : Char) (ls : List (List Char)) (t : List Char) :
    [sep].intercalate (ls ++ [t]) = (ls.map fun l => l ++ [sep]).flatten ++ t := by
  induction ls with
  | nil => simp
  | cons l ls ih =>
    rw [List.cons_append, List.intercalate_cons_of_ne_nil (by simp), ih]
    simp

/-! ## Parts that are not empty -/

section

variable {sep c : Char} {a b s w w' : List Char} {ls ls' : List (List Char)}

@[simp] theorem parts_nil (sep : Char) : parts sep [] = [] := by
  simp [parts]

/-- The parts on both sides of a separator. -/
theorem parts_append_cons (sep : Char) (a b : List Char) :
    parts sep (a ++ sep :: b) = parts sep a ++ parts sep b := by
  unfold parts
  rw [List.splitOn_append_cons_self, List.filter_append]

theorem parts_cons_self (sep : Char) (s : List Char) : parts sep (sep :: s) = parts sep s := by
  have h := parts_append_cons sep [] s
  rwa [parts_nil, List.nil_append, List.nil_append] at h

theorem parts_of_not_mem (hsep : sep ∉ s) (hs : s ≠ []) : parts sep s = [s] := by
  unfold parts
  rw [List.splitOn_eq_singleton hsep]
  simp [hs]

/-- A part has no separator in it. -/
theorem mem_of_mem_splitOn (h : w ∈ s.splitOn sep) (hc : c ∈ w) : c ∈ s ∧ c ≠ sep := by
  induction s generalizing w with
  | nil =>
    rw [List.mem_singleton.mp (show w ∈ [[]] by simpa using h)] at hc
    cases hc
  | cons x xs ih =>
    rw [List.splitOn_cons_eq_if_modifyHead] at h
    split at h
    · rcases List.mem_cons.mp h with rfl | h
      · cases hc
      · obtain ⟨hmem, hne⟩ := ih h hc
        exact ⟨List.mem_cons_of_mem x hmem, hne⟩
    · next hx =>
      obtain ⟨p, ps, hp⟩ := List.exists_cons_of_ne_nil (List.splitOn_ne_nil sep xs)
      rw [hp, List.modifyHead_cons] at h
      rcases List.mem_cons.mp h with rfl | h
      · -- the first part has got one more character
        rcases List.mem_cons.mp hc with rfl | hc
        · exact ⟨List.mem_cons_self, by simpa using hx⟩
        · obtain ⟨hmem, hne⟩ := ih (hp ▸ List.mem_cons_self) hc
          exact ⟨List.mem_cons_of_mem x hmem, hne⟩
      · obtain ⟨hmem, hne⟩ := ih (hp ▸ List.mem_cons_of_mem p h) hc
        exact ⟨List.mem_cons_of_mem x hmem, hne⟩

theorem mem_of_mem_parts (h : w ∈ parts sep s) (hc : c ∈ w) : c ∈ s ∧ c ≠ sep :=
  mem_of_mem_splitOn (List.mem_filter.mp h).1 hc

theorem parts_dropWhile (sep : Char) (s : List Char) :
    parts sep (s.dropWhile (· == sep)) = parts sep s := by
  induction s with
  | nil => rfl
  | cons x xs ih =>
    rw [List.dropWhile_cons]
    split
    · next hx => rw [ih, eq_of_beq hx, parts_cons_self]
    · rfl

theorem parts_append_replicate (sep : Char) (s : List Char) (n : ℕ) :
    parts sep (s ++ List.replicate n sep) = parts sep s := by
  induction n generalizing s with
  | zero => rw [List.replicate_zero, List.append_nil]
  | succ n ih =>
    have h := ih []
    rw [List.nil_append] at h
    rw [List.replicate_succ, parts_append_cons, h, parts_nil, List.append_nil]

/-- Separators at the ends make no parts. -/
theorem parts_stripChar (sep : Char) (s : List Char) :
    parts sep (stripChar sep s) = parts sep s := by
  obtain ⟨n, hn⟩ := eq_rstripChar_append sep (s.dropWhile (· == sep))
  calc parts sep (stripChar sep s)
      = parts sep (rstripChar sep (s.dropWhile (· == sep)) ++ List.replicate n sep) :=
        (parts_append_replicate sep _ n).symm
    _ = parts sep (s.dropWhile (· == sep)) := by rw [← hn]
    _ = parts sep s := parts_dropWhile sep s

/-- What stands between two separators is a part. -/
theorem mem_parts_of_infix (hw : w ≠ []) (hsep : sep ∉ w) (h : sep :: w ++ [sep] <:+: s) :
    w ∈ parts sep s := by
  obtain ⟨a, b, rfl⟩ := h
  have hs : a ++ (sep :: w ++ [sep]) ++ b = a ++ sep :: (w ++ sep :: b) := by simp
  rw [hs, parts_append_cons, parts_append_cons, parts_of_not_mem hsep hw]
  simp

theorem infix_intercalate (h : ls' ≠ []) :
    sep :: w ++ [sep] <:+: sep :: [sep].intercalate (ls ++ w :: ls') := by
  induction ls with
  | nil =>
    refine ⟨[], [sep].intercalate ls', ?_⟩
    rw [List.nil_append (w :: ls'), List.intercalate_cons_of_ne_nil h]
    simp
  | cons l ls ih =>
    obtain ⟨a, b, hab⟩ := ih
    refine ⟨sep :: l ++ a, b, ?_⟩
    rw [List.cons_append (a := l), List.intercalate_cons_of_ne_nil (by simp)]
    simp only [List.append_assoc, List.cons_append, List.nil_append] at hab ⊢
    rw [hab]

/-- A part with another one behind it stands between separators, with one in front of the
string. -/
theorem infix_of_parts (h : parts sep s = ls ++ [w, w']) :
    sep :: w ++ [sep] <:+: sep :: s := by
  obtain ⟨l₁, l₂, hsplit, -, hl₂⟩ := List.filter_eq_append_iff.mp h
  obtain ⟨l₃, l₄, rfl, -, -, hl₄⟩ := List.filter_eq_cons_iff.mp hl₂
  have hne : l₄ ≠ [] := by
    rintro rfl
    cases hl₄
  have hs : [sep].intercalate ((l₁ ++ l₃) ++ w :: l₄) = s := by
    rw [List.append_assoc, ← hsplit]
    exact List.intercalate_splitOn sep
  rw [← hs]
  exact infix_intercalate hne

end

/-! ## Stripping -/

/-- Nothing is dropped from a character on that does not have the property. -/
theorem dropWhile_append_cons {α : Type*} {p : α → Bool} {c : α} (hc : p c = false)
    (a b : List α) : (a ++ c :: b).dropWhile p = a.dropWhile p ++ c :: b := by
  rw [List.dropWhile_append]
  split
  · next hnil =>
    rw [List.isEmpty_iff.mp hnil, List.dropWhile_cons, hc]
    rfl
  · rfl

theorem rdropWhile_append_cons {α : Type*} {p : α → Bool} {c : α} (hc : p c = false)
    (a b : List α) : (a ++ c :: b).rdropWhile p = a ++ c :: b.rdropWhile p := by
  induction b using List.reverseRecOn with
  | nil => simp [hc]
  | append_singleton b d ih =>
    have hassoc : a ++ c :: (b ++ [d]) = (a ++ c :: b) ++ [d] := by simp
    rw [hassoc]
    by_cases hd : p d = true
    · rw [List.rdropWhile_concat_pos _ _ _ hd, ih, List.rdropWhile_concat_pos _ _ _ hd]
    · rw [List.rdropWhile_concat_neg _ _ _ hd, List.rdropWhile_concat_neg _ _ _ hd, hassoc]

/-- Stripping stops at a character that is no space, from either side. -/
theorem strip_append_cons {c : Char} (hc : isSpace c = false) (a b : List Char) :
    strip (a ++ c :: b) = a.dropWhile isSpace ++ c :: b.rdropWhile isSpace := by
  unfold strip
  rw [dropWhile_append_cons hc, rdropWhile_append_cons hc]

theorem strip_of_ends {s : List Char} (hhead : ∀ c ∈ s.head?, isSpace c = false)
    (hlast : ∀ c ∈ s.getLast?, isSpace c = false) : strip s = s := by
  have hl : s.dropWhile isSpace = s := by
    cases s with
    | nil => rfl
    | cons c cs =>
      have := hhead c (by simp)
      simp [this]
  unfold strip
  rw [hl, List.rdropWhile_eq_self_iff]
  intro hs
  have := hlast (s.getLast hs) (by rw [List.getLast?_eq_some_getLast hs]; rfl)
  simp [this]

/-- Space at the end of a string that starts with no space is stripped off. -/
theorem strip_append_space {s : List Char} {c : Char} (hs : s ≠ [])
    (hhead : ∀ c ∈ s.head?, isSpace c = false) (hlast : ∀ c ∈ s.getLast?, isSpace c = false)
    (hc : isSpace c = true) : strip (s ++ [c]) = s := by
  have hself := strip_of_ends hhead hlast
  obtain ⟨x, xs, rfl⟩ := List.exists_cons_of_ne_nil hs
  have hx := hhead x (by simp)
  simp only [strip, List.cons_append, List.dropWhile_cons, hx, Bool.false_eq_true,
    if_false] at hself ⊢
  rw [← List.cons_append, List.rdropWhile_concat_pos _ _ _ hc]
  exact hself

theorem dropWhile_isSpace_eq_self_iff {s : List Char} :
    s.dropWhile isSpace = s ↔ ∀ c ∈ s.head?, isSpace c = false := by
  cases s with
  | nil => simp
  | cons c cs =>
    cases hc : isSpace c with
    | false => simp [hc]
    | true =>
      have hlen := List.length_dropWhile_le isSpace cs
      simp only [List.dropWhile_cons, hc, if_true, List.head?_cons, Option.mem_some_iff,
        forall_eq']
      constructor
      · intro h
        rw [h, List.length_cons] at hlen
        omega
      · intro h
        cases h

theorem strip_sublist (s : List Char) : (strip s).Sublist s :=
  (List.rdropWhile_prefix _ _).sublist.trans (List.dropWhile_sublist _)

/-- A string without space at its ends. -/
theorem strip_eq_self_iff {s : List Char} :
    strip s = s ↔ (∀ c ∈ s.head?, isSpace c = false) ∧ ∀ c ∈ s.getLast?, isSpace c = false := by
  constructor
  · intro h
    have hdrop : s.dropWhile isSpace = s := by
      have hle := (List.rdropWhile_prefix isSpace (s.dropWhile isSpace)).length_le
      have heq := congrArg List.length h
      unfold strip at heq
      exact (List.dropWhile_sublist _).eq_of_length_le (by omega)
    refine ⟨dropWhile_isSpace_eq_self_iff.mp hdrop, fun c hc => ?_⟩
    unfold strip at h
    rw [hdrop, List.rdropWhile_eq_self_iff] at h
    have hs : s ≠ [] := by
      rintro rfl
      cases hc
    rw [List.getLast?_eq_some_getLast hs] at hc
    obtain rfl := Option.some.inj hc
    simpa using h hs
  · exact fun h => strip_of_ends h.1 h.2

theorem strip_strip (s : List Char) : strip (strip s) = strip s := by
  refine strip_eq_self_iff.mpr ⟨fun c hc => ?_, fun c hc => ?_⟩
  · obtain ⟨t, ht⟩ : strip s <+: s.dropWhile isSpace := List.rdropWhile_prefix _ _
    have hhead : (s.dropWhile isSpace).head? = some c := by
      rw [← ht, List.head?_append, Option.mem_def.mp hc]
      rfl
    have hnot := List.head?_dropWhile_not isSpace s
    rw [hhead] at hnot
    simpa using hnot
  · have hne : strip s ≠ [] := by
      intro hnil
      rw [hnil] at hc
      cases hc
    rw [List.getLast?_eq_some_getLast hne] at hc
    obtain rfl := Option.some.inj hc
    exact Bool.eq_false_iff.mpr (List.rdropWhile_last_not isSpace (s.dropWhile isSpace) hne)

end PyStr
end LeadPulse
