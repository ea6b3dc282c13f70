import LeadPulse.Lib.Run
import Mathlib.Data.Finset.Image
import Mathlib.Logic.Function.Basic

/-!
# The companies that are ticked

The list of `pages/Companies.tsx`: its filters, sorting and page are in the URL, its rows come from
`useCompanies`, and the bulk actions send the ids of the rows that are ticked. A change of the URL
unticks all. Until the new rows are there, `keepPreviousData` still shows the old ones: the mouse
does not reach them (`pointer-events-none`), but the keyboard does, and the checkbox in the header
ticks them all.

By `selectionListed_iff` this is how a bulk action gets to companies that the server has not listed
for the URL, and there is no other way.
-/

namespace LeadPulse
namespace Frontend

/-! ## The page -/

/-- The page at a URL, with the data of the queries in the cache. -/
structure CompaniesPage (K : Type) where
  url : K
  cache : K → Option (List ℕ)
  /-- The queries without data whose last request has failed. -/
  failed : K → Bool
  /-- The last query that was shown with data, and its data. -/
  last : Option (K × List ℕ)
  /-- The rows that are shown as long as there are none for the URL. -/
  placeholder : Option (List ℕ)
  selected : Finset ℕ
  /-- All lists for the URL: that of the cache when it was opened, and every answer since. -/
  listed : List ℕ
  /-- The companies that were sent with a bulk action although they were not listed. -/
  strays : Finset ℕ

inductive PageEvent (K : Type) where
  | navigate (k : K)
  /-- A request of the query `k` starts, again or for the first time, is answered, or fails. -/
  | fetch (k : K)
  | answer (k : K) (rows : List ℕ)
  | fail (k : K)
  /-- A query that is not in use is dropped from the cache. -/
  | collect (k : K)
  | toggleSelect (pointer : Bool) (companyId : ℕ)
  | toggleSelectAll
  /-- A bulk action sends the ids. -/
  | send
  /-- The button, or the end of a bulk action. -/
  | clear
deriving DecidableEq, Repr

namespace CompaniesPage

section

variable {K : Type}

def init (url : K) : CompaniesPage K where
  url := url
  cache := fun _ => none
  failed := fun _ => false
  last := none
  placeholder := none
  selected := ∅
  listed := []
  strays := ∅

/-- The rows in the table, and `isPlaceholderData`. -/
def data (s : CompaniesPage K) : Option (List ℕ × Bool) :=
  match s.cache s.url with
  | some rows => some (rows, false)
  | none => if s.failed s.url then none else s.placeholder.map fun rows => (rows, true)

/-- `keepPreviousData`: the rows that are shown, or else those that were shown last. -/
def previousData (s : CompaniesPage K) : Option (List ℕ) :=
  (s.data.map (·.1)).or (s.last.map (·.2))

def toggleSelect (s : CompaniesPage K) (companyId : ℕ) : CompaniesPage K :=
  { s with
    selected := if companyId ∈ s.selected then s.selected.erase companyId
      else insert companyId s.selected }

def toggleSelectAll (s : CompaniesPage K) : CompaniesPage K :=
  match s.data with
  | none => s
  | some (rows, _) =>
    if rows.all (· ∈ s.selected) then { s with selected := s.selected \ rows.toFinset }
    else { s with selected := s.selected ∪ rows.toFinset }

/-- The table does not show rows of another URL when a row is ticked, or all of them are. -/
def ticksListed (s : CompaniesPage K) : PageEvent K → Bool
  | .toggleSelect _ _ => s.data.all (! ·.2)
  | .toggleSelectAll => s.data.all fun d => ! d.2 || d.1.isEmpty
  | _ => true

/-- What is ticked, and all that was sent, is in one of the lists for the URL. -/
structure SelectionListed (s : CompaniesPage K) : Prop where
  selected : ∀ companyId ∈ s.selected, companyId ∈ s.listed
  sent : s.strays = ∅

/-- What is in the cache for the URL is listed, and nothing is listed without it. -/
structure Inv (s : CompaniesPage K) : Prop extends SelectionListed s where
  cached : ∀ rows, s.cache s.url = some rows → ∀ companyId ∈ rows, companyId ∈ s.listed
  uncached : s.cache s.url = none → s.listed = []

variable {s : CompaniesPage K} {rows : List ℕ}

theorem cache_of_data (h : s.data = some (rows, false)) : s.cache s.url = some rows := by
  unfold data at h
  cases hcache : s.cache s.url with
  | some rows' =>
    rw [hcache] at h
    obtain ⟨rfl, -⟩ := Prod.mk.inj (Option.some.inj h)
    rfl
  | none =>
    simp only [hcache] at h
    split at h
    · cases h
    · obtain ⟨rows', -, heq⟩ := Option.map_eq_some_iff.mp h
      cases heq

theorem cache_of_placeholder (h : s.data = some (rows, true)) : s.cache s.url = none := by
  unfold data at h
  cases hcache : s.cache s.url with
  | some rows' =>
    rw [hcache] at h
    cases h
  | none => rfl

theorem inv_init (url : K) : (init url).Inv where
  selected := fun _ h => nomatch h
  sent := rfl
  cached := fun _ h => nomatch h
  uncached := fun _ => rfl

/-- While the rows of another URL are shown, nothing is ticked. -/
theorem Inv.selected_of_placeholder (h : s.Inv) (hdata : s.data = some (rows, true)) :
    s.listed = [] ∧ s.selected = ∅ := by
  have hlisted := h.uncached (cache_of_placeholder hdata)
  refine ⟨hlisted, Finset.eq_empty_of_forall_notMem fun companyId hmem => ?_⟩
  have hin := h.selected companyId hmem
  rw [hlisted] at hin
  cases hin

theorem Inv.select (h : s.Inv) {selected : Finset ℕ}
    (hsel : ∀ companyId ∈ selected, companyId ∈ s.selected ∨ companyId ∈ s.listed) :
    Inv { s with selected := selected } where
  selected := fun companyId hmem => (hsel companyId hmem).elim (h.selected companyId) id
  sent := h.sent
  cached := h.cached
  uncached := h.uncached

theorem Inv.toggleSelect (h : s.Inv) {companyId : ℕ} (hlisted : companyId ∈ s.listed) :
    (s.toggleSelect companyId).Inv := by
  refine h.select fun k hk => ?_
  split at hk
  · exact .inl (Finset.mem_of_mem_erase hk)
  · rcases Finset.mem_insert.mp hk with rfl | hk
    · exact .inr hlisted
    · exact .inl hk

theorem Inv.toggleSelectAll (h : s.Inv)
    (hlisted : ∀ d ∈ s.data, ∀ companyId ∈ d.1, companyId ∈ s.listed) : s.toggleSelectAll.Inv := by
  unfold CompaniesPage.toggleSelectAll
  cases hdata : s.data with
  | none => exact h
  | some d =>
    obtain ⟨rows, isPlaceholderData⟩ := d
    dsimp only
    split
    · exact h.select fun k hk => .inl (Finset.mem_sdiff.mp hk).1
    · refine h.select fun k hk => ?_
      rcases Finset.mem_union.mp hk with hk | hk
      · exact .inl hk
      · exact .inr (hlisted _ hdata k (List.mem_toFinset.mp hk))

end

/-! ## Steps -/

variable {K : Type} [DecidableEq K]

def step (s : CompaniesPage K) : PageEvent K → Option (CompaniesPage K)
  | .navigate k =>
    if k = s.url then some s
    else some
      { s with
        url := k
        last := ((s.cache k).map fun rows => (k, rows)).or s.last
        placeholder := s.previousData
        selected := ∅
        listed := (s.cache k).getD [] }
  | .fetch k =>
    some { s with failed := Function.update s.failed k false, placeholder := s.previousData }
  | .answer k rows =>
    some
      { s with
        cache := Function.update s.cache k (some rows)
        failed := Function.update s.failed k false
        last := if k = s.url ∨ (s.cache k).isSome ∧ s.last.any (·.1 = k) then some (k, rows)
          else s.last
        listed := if k = s.url then s.listed ++ rows else s.listed }
  | .fail k => some { s with failed := Function.update s.failed k true }
  | .collect k =>
    if k = s.url then none else some { s with cache := Function.update s.cache k none }
  | .toggleSelect pointer companyId =>
    match s.data with
    | none => none
    | some (rows, isPlaceholderData) =>
      if companyId ∈ rows ∧ ¬(pointer ∧ isPlaceholderData) then some (s.toggleSelect companyId)
      else none
  | .toggleSelectAll => some s.toggleSelectAll
  | .send => some { s with strays := s.strays ∪ s.selected.filter (· ∉ s.listed) }
  | .clear => some { s with selected := ∅ }

variable {s s' : CompaniesPage K} {ev : PageEvent K} {rows : List ℕ}

/-- New rows for the URL are listed. -/
theorem Inv.answer (h : s.Inv) (k : K) (rows : List ℕ) (hs : s.step (.answer k rows) = some s') :
    s'.Inv := by
  obtain rfl := Option.some.inj hs
  by_cases hk : k = s.url
  · subst hk
    refine ⟨⟨fun companyId hmem => ?_, h.sent⟩, fun rows' hrows => ?_, fun hnone => ?_⟩
    · show companyId ∈ if s.url = s.url then _ else _
      rw [if_pos rfl]
      exact List.mem_append_left _ (h.selected companyId hmem)
    · obtain rfl : rows = rows' := by simpa using hrows
      show ∀ companyId ∈ rows, companyId ∈ if s.url = s.url then _ else _
      rw [if_pos rfl]
      exact fun companyId hmem => List.mem_append_right _ hmem
    · simp at hnone
  · have hcache : Function.update s.cache k (some rows) s.url = s.cache s.url :=
      Function.update_of_ne (Ne.symm hk) _ _
    refine ⟨⟨?_, h.sent⟩, ?_, ?_⟩
    · show ∀ companyId ∈ s.selected, companyId ∈ if k = s.url then _ else _
      rw [if_neg hk]
      exact h.selected
    · show ∀ rows', Function.update s.cache k (some rows) s.url = some rows' →
        ∀ companyId ∈ rows', companyId ∈ if k = s.url then _ else _
      rw [if_neg hk, hcache]
      exact h.cached
    · show Function.update s.cache k (some rows) s.url = none →
        (if k = s.url then _ else _) = []
      rw [if_neg hk, hcache]
      exact h.uncached

theorem Inv.step (h : s.Inv) (hc : s.ticksListed ev = true) (hs : s.step ev = some s') :
    s'.Inv := by
  cases ev with
  | navigate k =>
    simp only [CompaniesPage.step] at hs
    split at hs
    · obtain rfl := Option.some.inj hs
      exact h
    · obtain rfl := Option.some.inj hs
      refine ⟨⟨fun _ hmem => absurd hmem (Finset.notMem_empty _), h.sent⟩, ?_, ?_⟩
      · intro rows hrows companyId hmem
        show companyId ∈ (s.cache k).getD []
        rw [show s.cache k = some rows from hrows]
        exact hmem
      · intro hnone
        show (s.cache k).getD [] = []
        rw [show s.cache k = none from hnone]
        rfl
  | fetch k =>
    obtain rfl := Option.some.inj hs
    exact ⟨⟨h.selected, h.sent⟩, h.cached, h.uncached⟩
  | answer k rows => exact h.answer k rows hs
  | fail k =>
    obtain rfl := Option.some.inj hs
    exact ⟨⟨h.selected, h.sent⟩, h.cached, h.uncached⟩
  | collect k =>
    simp only [CompaniesPage.step] at hs
    split at hs
    · cases hs
    · rename_i hk
      obtain rfl := Option.some.inj hs
      have hcache : Function.update s.cache k none s.url = s.cache s.url :=
        Function.update_of_ne (Ne.symm hk) _ _
      refine ⟨⟨h.selected, h.sent⟩, ?_, ?_⟩
      · show ∀ rows, Function.update s.cache k none s.url = some rows → _
        rw [hcache]
        exact h.cached
      · show Function.update s.cache k none s.url = none → _
        rw [hcache]
        exact h.uncached
  | toggleSelect pointer companyId =>
    simp only [CompaniesPage.step] at hs
    cases hdata : s.data with
    | none =>
      rw [hdata] at hs
      cases hs
    | some d =>
      obtain ⟨rows, isPlaceholderData⟩ := d
      simp only [ticksListed, hdata, Option.all_some, Bool.not_eq_true'] at hc
      subst hc
      simp only [hdata] at hs
      split at hs
      · rename_i hmem
        obtain rfl := Option.some.inj hs
        exact h.toggleSelect (h.cached rows (cache_of_data hdata) companyId hmem.1)
      · cases hs
  | toggleSelectAll =>
    obtain rfl := Option.some.inj hs
    refine h.toggleSelectAll fun d hd companyId hmem => ?_
    obtain ⟨rows, isPlaceholderData⟩ := d
    rw [ticksListed, Option.mem_def.mp hd, Option.all_some, Bool.or_eq_true,
      Bool.not_eq_true', List.isEmpty_iff] at hc
    rcases hc with hc | hc
    · obtain rfl : isPlaceholderData = false := hc
      exact h.cached rows (cache_of_data hd) companyId hmem
    · obtain rfl : rows = [] := hc
      cases hmem
  | send =>
    obtain rfl := Option.some.inj hs
    refine ⟨⟨h.selected, ?_⟩, h.cached, h.uncached⟩
    show s.strays ∪ s.selected.filter (· ∉ s.listed) = ∅
    rw [h.sent, Finset.empty_union, Finset.filter_eq_empty_iff]
    exact fun companyId hmem => not_not.mpr (h.selected companyId hmem)
  | clear =>
    obtain rfl := Option.some.inj hs
    exact ⟨⟨fun _ hmem => absurd hmem (Finset.notMem_empty _), h.sent⟩, h.cached, h.uncached⟩

/-- Rows of another URL that are ticked are not listed. -/
theorem not_selectionListed_step (h : s.Inv) (hc : ¬ s.ticksListed ev = true)
    (hs : s.step ev = some s') : ¬ s'.SelectionListed := by
  intro hlisted
  cases ev with
  | toggleSelect pointer companyId =>
    cases hdata : s.data with
    | none => simp [ticksListed, hdata] at hc
    | some d =>
      obtain ⟨rows, isPlaceholderData⟩ := d
      simp only [ticksListed, hdata, Option.all_some, Bool.not_eq_true', Bool.not_eq_false] at hc
      subst hc
      obtain ⟨hnil, hnone⟩ := h.selected_of_placeholder hdata
      simp only [CompaniesPage.step, hdata] at hs
      split at hs
      · obtain rfl := Option.some.inj hs
        have hmem := hlisted.selected companyId (by simp [CompaniesPage.toggleSelect, hnone])
        change companyId ∈ s.listed at hmem
        rw [hnil] at hmem
        cases hmem
      · cases hs
  | toggleSelectAll =>
    cases hdata : s.data with
    | none => simp [ticksListed, hdata] at hc
    | some d =>
      obtain ⟨rows, isPlaceholderData⟩ := d
      simp only [ticksListed, hdata, Option.all_some, Bool.or_eq_true, Bool.not_eq_true',
        List.isEmpty_iff, not_or, Bool.not_eq_false] at hc
      obtain ⟨hplaceholder, hne⟩ := hc
      subst hplaceholder
      obtain ⟨hnil, hnone⟩ := h.selected_of_placeholder hdata
      obtain ⟨companyId, hmem⟩ := List.exists_mem_of_ne_nil rows hne
      obtain rfl := Option.some.inj hs
      have hall : ¬ rows.all (· ∈ s.selected) = true := by
        rw [List.all_eq_true]
        intro hall
        have hin := of_decide_eq_true (hall companyId hmem)
        rw [hnone] at hin
        exact absurd hin (Finset.notMem_empty _)
      unfold CompaniesPage.toggleSelectAll at hlisted
      simp only [hdata, if_neg hall] at hlisted
      have hin := hlisted.selected companyId
        (Finset.mem_union_right _ (List.mem_toFinset.mpr hmem))
      change companyId ∈ s.listed at hin
      rw [hnil] at hin
      cases hin
  | navigate | fetch | answer | fail | collect | send | clear => exact hc rfl

/-! ## Runs -/

/-- All that is ticked, and all that a bulk action sends, is in the list that the URL asks for,
exactly if no row is ticked while the table still shows the rows of another URL, be it by the
keyboard or by the checkbox in the header. -/
theorem selectionListed_iff (url : K) (events : List (PageEvent K)) :
    Run.AllStates step SelectionListed (init url) events ↔
      Run.AllSteps step (fun s ev => s.ticksListed ev = true) (init url) events :=
  Run.allStates_iff_allSteps (I := Inv) (fun _ h => h.toSelectionListed)
    (fun _ _ _ h hc hs => h.step hc hs) (fun _ _ _ h hc hs => not_selectionListed_step h hc hs)
    (inv_init url) events

/-- The second page is not there yet when the header is ticked: a company of the first one is
archived. -/
example : (Run.exec step (init 1)
    [.answer 1 [10, 11], .navigate 2, .toggleSelectAll, .answer 2 [12], .send]).any
      (fun s => s.strays = {10, 11}) = true := by
  decide +kernel

end CompaniesPage

end Frontend
end LeadPulse
