import Mathlib.Computability.Language
import Mathlib.Tactic.Common

/-!
# Patterns of `LIKE`

The patterns of SQL's `LIKE`: one sign stands for any text, one for any single character, and an
escape sign takes the meaning from the sign behind it.

* `read S pattern` are the items of a pattern, and `language items` the texts that they stand for;
* `fits` decides whether a text is one of them (`fits_iff`), `like` is `text LIKE pattern`;
* `quote S v` puts the escape sign in front of every sign of `v`: `like_quote` says that this
  stands for `v` alone, `like_contains` that between two signs for any text it stands for the
  texts that contain `v`;
* `ilike` compares without regard to case, as far as a function `fold` on characters says so.
-/

namespace LeadPulse
namespace Like

variable {α : Type*}

/-- The signs that do not stand for themselves. -/
structure Signs (α : Type*) where
  escape : α
  many : α
  one : α
  many_ne : many ≠ escape
  one_ne : one ≠ escape
  one_ne_many : one ≠ many

/-- `LIKE ... ESCAPE '\'` -/
def sql : Signs Char where
  escape := '\\'
  many := '%'
  one := '_'
  many_ne := by decide
  one_ne := by decide
  one_ne_many := by decide

/-- What a pattern is made of. -/
inductive Item (α : Type*) where
  | many
  | one
  | char (a : α)
deriving DecidableEq, Repr

def Signs.all (S : Signs α) : List α := [S.escape, S.many, S.one]

section

variable [DecidableEq α] (S : Signs α)

/-- The items of a pattern, `none` if it ends with an escape sign. -/
def read : List α → Option (List (Item α))
  | [] => some []
  | [c] =>
    if c = S.escape then none
    else if c = S.many then some [.many]
    else if c = S.one then some [.one]
    else some [.char c]
  | c :: d :: cs =>
    if c = S.escape then (read cs).map (.char d :: ·)
    else if c = S.many then (read (d :: cs)).map (.many :: ·)
    else if c = S.one then (read (d :: cs)).map (.one :: ·)
    else (read (d :: cs)).map (.char c :: ·)

/-- The text fits the pattern. -/
def fits : List (Item α) → List α → Bool
  | [], s => s.isEmpty
  | .char a :: p, s => match s with
    | [] => false
    | b :: t => b = a ∧ fits p t
  | .one :: p, s => match s with
    | [] => false
    | _ :: t => fits p t
  | .many :: p, s => s.tails.any (fits p)

/-- `s LIKE pattern`; the database rejects a pattern that ends with an escape sign. -/
def like (pattern s : List α) : Option Bool := (read S pattern).map (fits · s)

/-- `s ILIKE pattern`, where `fold` is the change of case. -/
def ilike (fold : α → α) (pattern s : List α) : Option Bool :=
  like S (pattern.map fold) (s.map fold)

/-- The pattern for a text. -/
def quote (v : List α) : List α := v.flatMap fun c => if c ∈ S.all then [S.escape, c] else [c]

end

/-! ## The texts of a pattern -/

def Item.language : Item α → Language α
  | many => (Set.univ : Set (List α))
  | one => {w : List α | ∃ a, w = [a]}
  | char a => {[a]}

def language (p : List (Item α)) : Language α := (p.map Item.language).prod

section

variable {p : List (Item α)} {s : List α} {a : α}

theorem mem_language_nil : s ∈ language ([] : List (Item α)) ↔ s = [] := Language.mem_one s

theorem mem_language_cons {item : Item α} :
    s ∈ language (item :: p) ↔ ∃ w ∈ item.language, ∃ t ∈ language p, w ++ t = s := by
  unfold language
  rw [List.map_cons, List.prod_cons, Language.mem_mul]

theorem mem_language_char : s ∈ language (.char a :: p) ↔ ∃ t ∈ language p, s = a :: t := by
  rw [mem_language_cons]
  constructor
  · rintro ⟨w, rfl, t, ht, rfl⟩
    exact ⟨t, ht, rfl⟩
  · rintro ⟨t, ht, rfl⟩
    exact ⟨[a], rfl, t, ht, rfl⟩

theorem mem_language_one : s ∈ language (.one :: p) ↔ ∃ b, ∃ t ∈ language p, s = b :: t := by
  rw [mem_language_cons]
  constructor
  · rintro ⟨w, ⟨b, rfl⟩, t, ht, rfl⟩
    exact ⟨b, t, ht, rfl⟩
  · rintro ⟨b, t, ht, rfl⟩
    exact ⟨[b], ⟨b, rfl⟩, t, ht, rfl⟩

theorem mem_language_many : s ∈ language (.many :: p) ↔ ∃ t ∈ language p, t <:+ s := by
  rw [mem_language_cons]
  constructor
  · rintro ⟨w, -, t, ht, rfl⟩
    exact ⟨t, ht, List.suffix_append w t⟩
  · rintro ⟨t, ht, w, rfl⟩
    exact ⟨w, Set.mem_univ w, t, ht, rfl⟩

/-- The matcher finds exactly the texts of the pattern. -/
theorem fits_iff [DecidableEq α] : fits p s = true ↔ s ∈ language p := by
  induction p generalizing s with
  | nil =>
    rw [mem_language_nil]
    exact List.isEmpty_iff
  | cons item p ih =>
    cases item with
    | many =>
      rw [mem_language_many]
      unfold fits
      rw [List.any_eq_true]
      constructor
      · rintro ⟨t, ht, hfits⟩
        exact ⟨t, ih.mp hfits, (List.mem_tails t s).mp ht⟩
      · rintro ⟨t, ht, hsuffix⟩
        exact ⟨t, (List.mem_tails t s).mpr hsuffix, ih.mpr ht⟩
    | one =>
      rw [mem_language_one]
      cases s with
      | nil => simp [fits]
      | cons b t => simp [fits, ih]
    | char a =>
      rw [mem_language_char]
      cases s with
      | nil => simp [fits]
      | cons b t => simp [fits, ih, and_comm]

/-- A text at the front of a pattern stands for itself. -/
theorem mem_language_text {v : List α} :
    s ∈ language (v.map Item.char ++ p) ↔ ∃ t ∈ language p, s = v ++ t := by
  induction v generalizing s with
  | nil => simp
  | cons c v ih =>
    rw [List.map_cons, List.cons_append, mem_language_char]
    constructor
    · rintro ⟨t, ht, rfl⟩
      obtain ⟨u, hu, rfl⟩ := ih.mp ht
      exact ⟨u, hu, rfl⟩
    · rintro ⟨u, hu, rfl⟩
      exact ⟨v ++ u, ih.mpr ⟨u, hu, rfl⟩, rfl⟩

/-- Any text may follow. -/
theorem mem_language_any : s ∈ language ([.many] : List (Item α)) :=
  mem_language_many.mpr ⟨[], mem_language_nil.mpr rfl, List.nil_suffix⟩

end

/-! ## Patterns for a text -/

section

variable [DecidableEq α] {S : Signs α} {v pattern s : List α}

theorem quote_cons (c : α) :
    quote S (c :: v) = (if c ∈ S.all then [S.escape, c] else [c]) ++ quote S v :=
  List.flatMap_cons

theorem read_escape_cons (c : α) :
    read S (S.escape :: c :: pattern) = (read S pattern).map (.char c :: ·) := by
  rw [read, if_pos rfl]

theorem read_many_cons : read S (S.many :: pattern) = (read S pattern).map (.many :: ·) := by
  cases pattern with
  | nil =>
    show (if S.many = S.escape then none else _) = _
    rw [if_neg S.many_ne, if_pos rfl]
    rfl
  | cons d cs => rw [read, if_neg S.many_ne, if_pos rfl]

theorem read_char_cons {c : α} (hc : c ∉ S.all) :
    read S (c :: pattern) = (read S pattern).map (.char c :: ·) := by
  have hescape : c ≠ S.escape := fun h => hc (h ▸ List.mem_cons_self)
  have hmany : c ≠ S.many := fun h => hc (h ▸ List.mem_cons_of_mem _ List.mem_cons_self)
  have hone : c ≠ S.one := fun h => hc (h ▸ by simp [Signs.all])
  cases pattern with
  | nil =>
    show (if c = S.escape then none else _) = _
    rw [if_neg hescape, if_neg hmany, if_neg hone]
    rfl
  | cons d cs => rw [read, if_neg hescape, if_neg hmany, if_neg hone]

/-- In front of any pattern, the pattern for a text is read as the characters of the text. -/
theorem read_quote_append : read S (quote S v ++ pattern) =
    (read S pattern).map (v.map Item.char ++ ·) := by
  induction v with
  | nil => exact Option.map_id'.symm
  | cons c v ih =>
    rw [quote_cons, List.append_assoc]
    split
    · rw [List.cons_append, List.singleton_append, read_escape_cons, ih, Option.map_map]
      rfl
    · rename_i hc
      rw [List.singleton_append, read_char_cons hc, ih, Option.map_map]
      rfl

theorem like_eq_some_true {items : List (Item α)} (h : read S pattern = some items) :
    like S pattern s = some true ↔ s ∈ language items := by
  unfold like
  rw [h, Option.map_some, Option.some_inj, fits_iff]

/-- The pattern for `v` stands for `v` and nothing else. -/
theorem like_quote : like S (quote S v) s = some true ↔ s = v := by
  have hread : read S (quote S v) = some (v.map Item.char ++ []) := by
    have h : read S (quote S v ++ []) = _ := read_quote_append
    rwa [List.append_nil] at h
  rw [like_eq_some_true hread, mem_language_text]
  constructor
  · rintro ⟨t, ht, rfl⟩
    rw [mem_language_nil.mp ht, List.append_nil]
  · rintro rfl
    exact ⟨[], mem_language_nil.mpr rfl, (List.append_nil s).symm⟩

/-- Between two signs for any text, the pattern for `v` stands for the texts with `v` in them. -/
theorem like_contains :
    like S (S.many :: (quote S v ++ [S.many])) s = some true ↔ v <:+: s := by
  have hread : read S (S.many :: (quote S v ++ [S.many])) =
      some (.many :: (v.map Item.char ++ [.many])) := by
    rw [read_many_cons, read_quote_append, read_many_cons]
    rfl
  rw [like_eq_some_true hread, mem_language_many]
  constructor
  · rintro ⟨t, ht, u, rfl⟩
    obtain ⟨w, -, rfl⟩ := mem_language_text.mp ht
    exact ⟨u, w, List.append_assoc u v w⟩
  · rintro ⟨u, w, rfl⟩
    have hmem : v ++ w ∈ language (v.map Item.char ++ [.many]) :=
      mem_language_text.mpr ⟨w, mem_language_any, rfl⟩
    exact ⟨v ++ w, hmem, u, (List.append_assoc u v w).symm⟩

/-! ## Without regard to case -/

/-- The change of case makes no signs and leaves them alone. -/
def Signs.Fixed (S : Signs α) (fold : α → α) : Prop := ∀ a, ∀ c ∈ S.all, fold a = c ↔ a = c

omit [DecidableEq α] in
theorem Signs.Fixed.mem_all {fold : α → α} (h : S.Fixed fold) (a : α) :
    fold a ∈ S.all ↔ a ∈ S.all := by
  constructor
  · intro ha
    exact (h a (fold a) ha).mp rfl ▸ ha
  · intro ha
    rwa [(h a a ha).mpr rfl]

theorem map_quote {fold : α → α} (h : S.Fixed fold) :
    (quote S v).map fold = quote S (v.map fold) := by
  have hescape : fold S.escape = S.escape := (h S.escape S.escape List.mem_cons_self).mpr rfl
  induction v with
  | nil => rfl
  | cons c v ih =>
    rw [quote_cons, List.map_append, ih, List.map_cons, quote_cons]
    congr 1
    by_cases hc : c ∈ S.all
    · rw [if_pos hc, if_pos ((h.mem_all c).mpr hc), List.map_cons, hescape, List.map_singleton]
    · rw [if_neg hc, if_neg (mt (h.mem_all c).mp hc), List.map_singleton]

/-- The search without regard to case. -/
theorem ilike_contains {fold : α → α} (h : S.Fixed fold) :
    ilike S fold (S.many :: (quote S v ++ [S.many])) s = some true ↔
      v.map fold <:+: s.map fold := by
  have hmany : fold S.many = S.many :=
    (h S.many S.many (List.mem_cons_of_mem _ List.mem_cons_self)).mpr rfl
  unfold ilike
  rw [List.map_cons, List.map_append, map_quote h, List.map_singleton, hmany, like_contains]

end

end Like
end LeadPulse
