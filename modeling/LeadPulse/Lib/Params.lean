import LeadPulse.Lib.PyNum

/-!
# Query parameters

How the filters of a search are written into the parameters of a request, and what a server
reads back. A list of values is joined with commas, a range is written `min:max` with an open
end left out, and a filter that is not set has no parameter.

`reread_eq_iff` says which lists survive: those without a comma in a value. A range always does
(`readRange_rangeValue`).
-/

namespace LeadPulse
namespace Params

open PyNum

/-- Parameters, the values as texts. -/
abbrev QueryParams := List (String × List Char)

variable {name key : String} {values : List String} {lo hi : Option ℤ}

/-! ## Lists -/

/-- `",".join(values)` -/
def joined (values : List String) : List Char := [','].intercalate (values.map String.toList)

def listParam (name : String) (values : List String) : QueryParams :=
  if values = [] then [] else [(name, joined values)]

def readList : Option (List Char) → List String
  | none => []
  | some value => (value.splitOn ',').map String.ofList

/-- What a server reads in place of the values. -/
def reread (values : List String) : List String :=
  readList (if values = [] then none else some (joined values))

@[simp] theorem lookup_listParam_self :
    (listParam name values).lookup name = if values = [] then none else some (joined values) := by
  unfold listParam
  split
  · rfl
  · exact List.lookup_cons_self

@[simp] theorem lookup_listParam_ne (h : key ≠ name) :
    (listParam name values).lookup key = none := by
  unfold listParam
  split
  · rfl
  · rw [List.lookup_cons, beq_false_of_ne h]
    rfl

theorem listParam_eq_nil_iff : listParam name values = [] ↔ values = [] := by
  unfold listParam
  split
  · rename_i h
    exact iff_of_true rfl h
  · rename_i h
    exact iff_of_false (List.cons_ne_nil _ _) h

/-- A list is read as it was written, exactly if no value has a comma in it. -/
theorem reread_eq_iff : reread values = values ↔ ∀ v ∈ values, ',' ∉ v.toList := by
  by_cases hnil : values = []
  · subst hnil
    simp [reread, readList]
  have hread : reread values = ((joined values).splitOn ',').map String.ofList := by
    unfold reread
    rw [if_neg hnil]
    rfl
  rw [hread]
  constructor
  · intro h v hv hcomma
    rw [← h, List.mem_map] at hv
    obtain ⟨w, hw, rfl⟩ := hv
    rw [String.toList_ofList] at hcomma
    exact (PyStr.mem_of_mem_splitOn hw hcomma).2 rfl
  · intro h
    have hsplit : (joined values).splitOn ',' = values.map String.toList := by
      refine List.splitOn_intercalate ',' (fun l hl => ?_) fun hmap =>
        hnil (List.map_eq_nil_iff.mp hmap)
      obtain ⟨v, hv, rfl⟩ := List.mem_map.mp hl
      exact h v hv
    rw [hsplit, List.map_map]
    refine (List.map_congr_left fun v _ => ?_).trans (List.map_id values)
    exact String.ofList_toList

/-! ## Ranges -/

def bound : Option ℤ → List Char
  | none => []
  | some n => str n

def rangeValue (lo hi : Option ℤ) : List Char := bound lo ++ ':' :: bound hi

def rangeParam (name : String) (lo hi : Option ℤ) : QueryParams :=
  if lo = none ∧ hi = none then [] else [(name, rangeValue lo hi)]

def readBound : List Char → Option (Option ℤ)
  | [] => some none
  | text => (int text).map some

def readRange : Option (List Char) → Option (Option ℤ × Option ℤ)
  | none => some (none, none)
  | some value =>
    match value.splitOn ':' with
    | [lo, hi] => do
      let lo ← readBound lo
      let hi ← readBound hi
      return (lo, hi)
    | _ => none

@[simp] theorem lookup_rangeParam_self : (rangeParam name lo hi).lookup name =
    if lo = none ∧ hi = none then none else some (rangeValue lo hi) := by
  unfold rangeParam
  split
  · rfl
  · exact List.lookup_cons_self

@[simp] theorem lookup_rangeParam_ne (h : key ≠ name) :
    (rangeParam name lo hi).lookup key = none := by
  unfold rangeParam
  split
  · rfl
  · rw [List.lookup_cons, beq_false_of_ne h]
    rfl

theorem rangeParam_eq_nil_iff : rangeParam name lo hi = [] ↔ lo = none ∧ hi = none := by
  unfold rangeParam
  split
  · rename_i h
    exact iff_of_true rfl h
  · rename_i h
    exact iff_of_false (List.cons_ne_nil _ _) h

theorem str_ne_nil (n : ℤ) : str n ≠ [] := by
  intro h
  have hread := int_str n
  rw [h] at hread
  cases hread

theorem colon_not_mem_str (n : ℤ) : ':' ∉ str n := by
  have hdigits : ∀ m : ℕ, ':' ∉ Nat.toDigits 10 m := fun m hm =>
    absurd (Nat.isDigit_of_mem_toDigits (by decide) (by decide) hm) (by decide)
  cases n with
  | ofNat n => exact hdigits n
  | negSucc n =>
    intro h
    rcases List.mem_cons.mp h with h | h
    · cases h
    · exact hdigits (n + 1) h

theorem colon_not_mem_bound (b : Option ℤ) : ':' ∉ bound b := by
  cases b with
  | none => exact List.not_mem_nil
  | some n => exact colon_not_mem_str n

theorem readBound_bound (b : Option ℤ) : readBound (bound b) = some b := by
  cases b with
  | none => rfl
  | some n =>
    show readBound (str n) = _
    unfold readBound
    split
    · rename_i h
      exact absurd h (str_ne_nil n)
    · rw [int_str]
      rfl

theorem readRange_rangeValue (lo hi : Option ℤ) :
    readRange (if lo = none ∧ hi = none then none else some (rangeValue lo hi)) =
      some (lo, hi) := by
  split
  · rename_i h
    rw [h.1, h.2]
    rfl
  · have hsplit : (rangeValue lo hi).splitOn ':' = [bound lo, bound hi] := by
      unfold rangeValue
      rw [List.splitOn_append_cons_self_of_not_mem (colon_not_mem_bound lo),
        List.splitOn_eq_singleton (colon_not_mem_bound hi)]
    simp only [readRange, hsplit, readBound_bound]
    rfl

/-! ## Numbers -/

def intParam (name : String) (n : ℤ) : QueryParams := [(name, str n)]

@[simp] theorem lookup_intParam_self {n : ℤ} : (intParam name n).lookup name = some (str n) :=
  List.lookup_cons_self

@[simp] theorem lookup_intParam_ne {n : ℤ} (h : key ≠ name) :
    (intParam name n).lookup key = none := by
  unfold intParam
  rw [List.lookup_cons, beq_false_of_ne h]
  rfl

/-! ## Texts -/

/-- The empty text is not sent. -/
def textParam (name text : String) : QueryParams := if text = "" then [] else [(name, text.toList)]

def readText (value : Option (List Char)) : String := String.ofList (value.getD [])

@[simp] theorem lookup_textParam_self {text : String} : (textParam name text).lookup name =
    if text = "" then none else some text.toList := by
  unfold textParam
  split
  · rfl
  · exact List.lookup_cons_self

@[simp] theorem lookup_textParam_ne {text : String} (h : key ≠ name) :
    (textParam name text).lookup key = none := by
  unfold textParam
  split
  · rfl
  · rw [List.lookup_cons, beq_false_of_ne h]
    rfl

theorem textParam_eq_nil_iff {text : String} : textParam name text = [] ↔ text = "" := by
  unfold textParam
  split
  · rename_i h
    exact iff_of_true rfl h
  · rename_i h
    exact iff_of_false (List.cons_ne_nil _ _) h

theorem readText_textValue (text : String) :
    readText (if text = "" then none else some text.toList) = text := by
  split
  · rename_i h
    rw [h]
    rfl
  · exact String.ofList_toList

end Params
end LeadPulse
