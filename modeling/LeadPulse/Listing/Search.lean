import LeadPulse.Lib.Like
import LeadPulse.Listing.Pages

/-!
# What a search finds

`escape_like` (`core/utils.py`) writes a backslash in front of the signs of a pattern, with three
replacements one after the other. The backslash comes first, so that none of those that the other
two write is doubled: `escapeLike_eq_quote` is the one pass that comes out.

`escapeLike_exact` is what that means for `LIKE`. The lists use `ILIKE`: `companyMatches_search`
and `contactMatches_search` say which rows they find, under a database that folds characters.
-/

namespace LeadPulse
namespace Listing

open Like Paging

/-! ## The pattern -/

/-- What the three replacements make of one character. -/
theorem escapeLike_singleton (c : Char) : escapeLike [c] = quote sql [c] := by
  by_cases hescape : c = '\\'
  · subst hescape
    rfl
  by_cases hmany : c = '%'
  · subst hmany
    rfl
  by_cases hone : c = '_'
  · subst hone
    rfl
  have hsign : c ∉ sql.all := by
    simp [Signs.all, sql, hescape, hmany, hone]
  simp [escapeLike, replaceChar, quote, hescape, hmany, hone, hsign]

theorem replaceChar_append (c : Char) (text a b : List Char) :
    replaceChar c text (a ++ b) = replaceChar c text a ++ replaceChar c text b :=
  List.flatMap_append

theorem escapeLike_append (a b : List Char) :
    escapeLike (a ++ b) = escapeLike a ++ escapeLike b := by
  unfold escapeLike
  rw [replaceChar_append, replaceChar_append, replaceChar_append]

/-- The three replacements work on each character alone. -/
theorem escapeLike_eq_quote (value : List Char) : escapeLike value = quote sql value := by
  induction value with
  | nil => rfl
  | cons c cs ih =>
    have happend : escapeLike (c :: cs) = escapeLike [c] ++ escapeLike cs :=
      escapeLike_append [c] cs
    rw [happend, escapeLike_singleton, ih, quote_cons, quote_cons]
    exact congrArg (· ++ quote sql cs) (List.append_nil _)

theorem containsPattern_eq (value : List Char) :
    containsPattern value = sql.many :: (quote sql value ++ [sql.many]) := by
  unfold containsPattern
  rw [escapeLike_eq_quote]
  rfl

/-- A text is `LIKE` the escaped value exactly if it is the value, and `LIKE` the pattern that the
lists build exactly if the value is a part of it. -/
theorem escapeLike_exact (value s : List Char) :
    (like sql (escapeLike value) s = some true ↔ s = value) ∧
      (like sql (containsPattern value) s = some true ↔ value <:+: s) := by
  constructor
  · rw [escapeLike_eq_quote]
    exact like_quote
  · rw [containsPattern_eq]
    exact like_contains

example : escapeLike "50%\\_x".toList = "50\\%\\\\\\_x".toList := by decide

/-! ## The lists -/

/-- A database that folds the characters of both sides for `ILIKE`. -/
def TextRules.ofFold (collate : SortOrder (List Char)) (fold : Char → Char) : TextRules where
  collate := collate
  ilike value pattern := Like.ilike sql fold pattern value = some true

section

variable {collate : SortOrder (List Char)} {fold : Char → Char} {text : List Char}

/-- The column has a value, and the text is a part of it but for the case. -/
def Finds (fold : Char → Char) (text : List Char) (column : Option (List Char)) : Prop :=
  ∃ value ∈ column, text.map fold <:+: value.map fold

theorem contains_iff (hfold : sql.Fixed fold) (column : Option (List Char)) :
    (TextRules.ofFold collate fold).contains text column = true ↔ Finds fold text column := by
  unfold TextRules.contains Finds
  rw [Option.any_eq_true]
  refine exists_congr fun value => and_congr_right fun _ => ?_
  show decide (Like.ilike sql fold (containsPattern text) value = some true) = true ↔ _
  rw [decide_eq_true_eq, containsPattern_eq, ilike_contains hfold]

/-- A search leaves the companies whose name or domain has the text in it. -/
theorem companyMatches_search (hfold : sql.Fixed fold) (p : CompanyParams) (c : CompanyRow) :
    companyMatches (.ofFold collate fold) { p with search := some text } c = true ↔
      companyMatches (.ofFold collate fold) { p with search := none } c = true ∧
        (Finds fold text (some c.name) ∨ Finds fold text (some c.domain)) := by
  unfold companyMatches
  simp only [Option.all_some, Option.all_none, Bool.and_true, Bool.and_eq_true, Bool.or_eq_true,
    contains_iff hfold]

/-- A search leaves the contacts of whom one of four columns has the text in it. -/
theorem contactMatches_search (hfold : sql.Fixed fold) (p : ContactParams)
    (r : ContactRow × CompanyRow) :
    contactMatches (.ofFold collate fold) { p with search := some text } r = true ↔
      contactMatches (.ofFold collate fold) { p with search := none } r = true ∧
        (Finds fold text (some r.1.name) ∨ Finds fold text r.1.email ∨
          Finds fold text r.1.title ∨ Finds fold text (some r.2.name)) := by
  unfold contactMatches
  simp only [Option.all_some, Option.all_none, Bool.and_true, Bool.and_eq_true, Bool.or_eq_true,
    contains_iff hfold, or_assoc]

end

end Listing
end LeadPulse
