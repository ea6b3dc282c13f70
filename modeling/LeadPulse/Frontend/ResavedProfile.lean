import LeadPulse.Discovery.NegativeFilters
import LeadPulse.Discovery.SearchParams
import LeadPulse.Frontend.ProfileForm

/-!
# A profile that is saved as it was

Who opens the form of a profile and submits it unchanged sends all filters back. The row may change:
an empty filter becomes null. What it asks for does not (`resave_spec`), in the scores, in the
search of a discovery and in the exclusions, if its numbers are doubles; a number that is none
comes back as the nearest one. A second time nothing changes at all.
-/

namespace LeadPulse

open Discovery Scoring

/-! ## What a profile asks for -/

namespace ICPProfile

/-- The row without nulls: all readers take a null for an empty filter. -/
def filled (p : ICPProfile) : ICPProfile :=
  { p with
    industryFilter := some (p.industryFilter.getD [])
    sizeFilter := some (p.sizeFilter.getD {})
    geoFilter := some (p.geoFilter.getD {})
    techFilter := some (p.techFilter.getD [])
    negativeFilters := some (p.negativeFilters.getD {}) }

variable {U : Unicode} {p p' : ICPProfile}

theorem calculateIcpScore_filled (p : ICPProfile) (x : ScoreInput) :
    calculateIcpScore U p.filled x = calculateIcpScore U p x := by
  have hsize : sizeCriterion p.filled x = sizeCriterion p x := by
    unfold sizeCriterion filled
    cases p.sizeFilter <;> rfl
  have hgeo : geoCriterion U p.filled x = geoCriterion U p x := by
    unfold geoCriterion filled
    cases p.geoFilter <;> rfl
  unfold calculateIcpScore criteria
  rw [hsize, hgeo]
  rfl

theorem icpToSearchParams_filled (p : ICPProfile) (rows page : ℤ) :
    icpToSearchParams U p.filled rows page = icpToSearchParams U p rows page := by
  have hfilters : icpFilters U p.filled rows page = icpFilters U p rows page := by
    unfold icpFilters filled
    cases p.sizeFilter <;> cases p.geoFilter <;> rfl
  unfold icpToSearchParams
  rw [hfilters]

theorem excluded_filled (p : ICPProfile) (domain : List Char) (industry : Option (List Char)) :
    Excluded U p.filled domain industry ↔ Excluded U p domain industry := by
  unfold Excluded disqualified filled
  cases p.negativeFilters <;> exact Iff.rfl

end ICPProfile

namespace Frontend

/-- The profile after its form has been opened and submitted, if the browser and the form let it
through and the server accepts it. -/
def resave (J : JsNumber) (p : ICPProfile) : Option ICPProfile :=
  ((profileToForm J p).submit J).bind fun body =>
    body.update.toOption.map fun data => IcpTable.patched data p

/-- The bounds of a profile. -/
def bounds (p : ICPProfile) : List ℚ :=
  [p.sizeFilter.bind fun s => s.minEmployees.map fun n : ℤ => (n : ℚ),
    p.sizeFilter.bind fun s => s.maxEmployees.map fun n : ℤ => (n : ℚ),
    p.sizeFilter.bind SizeFilter.minRevenue, p.sizeFilter.bind SizeFilter.maxRevenue].reduceOption

/-- All bounds are doubles. -/
def Exact (J : JsNumber) (p : ICPProfile) : Prop := ∀ q ∈ bounds p, J.double q = q

variable {J : JsNumber} {p p' : ICPProfile} {a b c d : Option ℕ}

theorem fieldNumber_fieldText (J : JsNumber) (value : Option ℚ) :
    fieldNumber J (fieldText J value) = value.map J.double := by
  cases value with
  | none => rfl
  | some q =>
    unfold fieldNumber fieldText
    rw [if_neg (J.text_ne _), J.number_text, Option.map_some]

theorem fieldText_map_double (J : JsNumber) (value : Option ℚ) :
    fieldText J (value.map J.double) = fieldText J value := by
  cases value with
  | none => rfl
  | some q => exact congrArg J.text (J.double_double q)

/-! ## The row -/

theorem getD_listOrNull (l : List String) : (FormState.listOrNull l).getD [] = l := by
  unfold FormState.listOrNull
  cases l <;> rfl

/-- The bounds that the server has read, one by one. -/
theorem sizeFilterOf_getD (a b c d : Option ℕ) : (sizeFilterOf a b c d).getD {} =
    { minEmployees := a.map fun n : ℕ => (n : ℤ)
      maxEmployees := b.map fun n : ℕ => (n : ℤ)
      minRevenue := c.map fun n : ℕ => (n : ℚ)
      maxRevenue := d.map fun n : ℕ => (n : ℚ) } := by
  unfold sizeFilterOf
  split
  · rename_i hnone
    obtain ⟨rfl, rfl, rfl, rfl⟩ := hnone
    rfl
  · rfl

theorem geoFilter_getD (J : JsNumber) (p : ICPProfile) :
    ((profileToForm J p).toPayload J).geoFilter.getD {} = p.geoFilter.getD {} := by
  cases hp : p.geoFilter with
  | none =>
    unfold FormState.toPayload profileToForm
    rw [hp]
    rfl
  | some geo =>
    obtain ⟨countries, regions, cities⟩ := geo
    unfold FormState.toPayload profileToForm
    rw [hp]
    cases countries <;> cases regions <;> cases cities <;> rfl

theorem negativeFilters_getD (J : JsNumber) (p : ICPProfile) :
    ((profileToForm J p).toPayload J).negativeFilters.getD {} = p.negativeFilters.getD {} := by
  cases hp : p.negativeFilters with
  | none =>
    unfold FormState.toPayload profileToForm
    rw [hp]
    rfl
  | some negative =>
    obtain ⟨industries, domains⟩ := negative
    unfold FormState.toPayload profileToForm
    rw [hp]
    cases industries <;> cases domains <;> rfl

/-- A row that has been saved from its own form. -/
structure Resaved (J : JsNumber) (p p' : ICPProfile) (a b c d : Option ℕ) : Prop where
  sizes : Sizes J (profileToForm J p) a b c d
  submitted : (profileToForm J p).submit J = some ((profileToForm J p).toPayload J)
  read : ((profileToForm J p).toPayload J).update =
    .ok (((profileToForm J p).toPayload J).updateData (sizeFilterOf a b c d))
  row : p' =
    { p with
      industryFilter := FormState.listOrNull (p.industryFilter.getD [])
      sizeFilter := sizeFilterOf a b c d
      geoFilter := ((profileToForm J p).toPayload J).geoFilter
      techFilter := FormState.listOrNull (p.techFilter.getD [])
      negativeFilters := ((profileToForm J p).toPayload J).negativeFilters }

theorem exists_resaved (h : resave J p = some p') : ∃ a b c d, Resaved J p p' a b c d := by
  obtain ⟨body, hbody, hrow⟩ := Option.bind_eq_some_iff.mp h
  obtain ⟨data, hdata, hpatched⟩ := Option.map_eq_some_iff.mp hrow
  have hsubmit := FormState.submit_eq_some_iff.mp hbody
  obtain ⟨a, b, c, d, hs⟩ := exists_sizes hsubmit.1
  obtain ⟨-, -, -, -, -, rfl⟩ := hsubmit
  have hupdate : ((profileToForm J p).toPayload J).update = .ok data := by
    cases hu : ((profileToForm J p).toPayload J).update with
    | error e =>
      rw [hu] at hdata
      cases hdata
    | ok data' =>
      rw [hu] at hdata
      rw [Option.some.inj hdata]
  obtain ⟨-, rfl⟩ := (update_eq_ok_iff hs hbody).mp hupdate
  exact ⟨a, b, c, d, hs, hbody, hupdate, hpatched.symm⟩

/-- The form of the row that has been saved is the form that it was saved from. -/
theorem profileToForm_resaved (h : Resaved J p p' a b c d) :
    profileToForm J p' = profileToForm J p := by
  have hlist {α β : Type} (o : Option α) (g : α → List β) (default : α) (hg : g default = []) :
      (o.map g).getD [] = g (o.getD default) := by
    cases o with
    | none => exact hg.symm
    | some x => rfl
  have hbound {α : Type} (o : Option α) (g : α → Option ℚ) (default : α)
      (hg : g default = none) : o.bind g = g (o.getD default) := by
    cases o with
    | none => exact hg.symm
    | some x => rfl
  -- what was read from a field is the double of its bound
  have hfield {value : Option ℚ} {n : Option ℕ}
      (hn : fieldNumber J (fieldText J value) = n.map fun n : ℕ => (n : ℚ)) :
      fieldText J (n.map fun n : ℕ => (n : ℚ)) = fieldText J value := by
    rw [← hn, fieldNumber_fieldText, fieldText_map_double]
  have hcast (n : Option ℕ) : (n.map fun n : ℕ => (n : ℤ)).map (fun n : ℤ => (n : ℚ)) =
      n.map fun n : ℕ => (n : ℚ) := by
    cases n <;> rfl
  have hsize := congrArg ICPProfile.sizeFilter h.row
  have hgeo : p'.geoFilter.getD {} = p.geoFilter.getD {} := by
    rw [h.row]
    exact geoFilter_getD J p
  have hnegative : p'.negativeFilters.getD {} = p.negativeFilters.getD {} := by
    rw [h.row]
    exact negativeFilters_getD J p
  unfold profileToForm
  rw [FormState.mk.injEq]
  refine ⟨?_, ?_, ?_, ?_, ?_, ?_, ?_, ?_, ?_, ?_, ?_, ?_⟩
  · rw [h.row]
  · rw [h.row]
    exact getD_listOrNull _
  · rw [hsize, hbound _ _ {} rfl, sizeFilterOf_getD, hcast]
    exact hfield h.sizes.minEmployees
  · rw [hsize, hbound _ _ {} rfl, sizeFilterOf_getD, hcast]
    exact hfield h.sizes.maxEmployees
  · rw [hsize, hbound _ _ {} rfl, sizeFilterOf_getD]
    exact hfield h.sizes.minRevenue
  · rw [hsize, hbound _ _ {} rfl, sizeFilterOf_getD]
    exact hfield h.sizes.maxRevenue
  · rw [hlist p'.geoFilter _ {} rfl, hlist p.geoFilter _ {} rfl, hgeo]
  · rw [hlist p'.geoFilter _ {} rfl, hlist p.geoFilter _ {} rfl, hgeo]
  · rw [hlist p'.geoFilter _ {} rfl, hlist p.geoFilter _ {} rfl, hgeo]
  · rw [h.row]
    exact getD_listOrNull _
  · rw [hlist p'.negativeFilters _ {} rfl, hlist p.negativeFilters _ {} rfl, hnegative]
  · rw [hlist p'.negativeFilters _ {} rfl, hlist p.negativeFilters _ {} rfl, hnegative]

/-- A second time, the row stays as it is. -/
theorem resave_resaved (h : Resaved J p p' a b c d) : resave J p' = some p' := by
  unfold resave
  rw [profileToForm_resaved h, h.submitted, Option.bind_some, h.read]
  show some (IcpTable.patched _ p') = some p'
  rw [h.row]
  rfl

/-- The bounds are kept one by one. -/
theorem sizeFilter_resaved_iff (h : Resaved J p p' a b c d) :
    (sizeFilterOf a b c d).getD {} = p.sizeFilter.getD {} ↔ Exact J p := by
  have hbound {α : Type} (g : SizeFilter → Option α) (hg : g {} = none) :
      p.sizeFilter.bind g = g (p.sizeFilter.getD {}) := by
    cases p.sizeFilter with
    | none => exact hg.symm
    | some x => rfl
  have hexact {value : Option ℚ} {n : Option ℕ}
      (hn : fieldNumber J (fieldText J value) = n.map fun n : ℕ => (n : ℚ)) :
      (n.map fun n : ℕ => (n : ℚ)) = value ↔ ∀ q ∈ value, J.double q = q := by
    rw [← hn, fieldNumber_fieldText]
    cases value <;> simp
  have hint {value : Option ℤ} {n : Option ℕ} :
      (n.map fun n : ℕ => (n : ℤ)) = value ↔
        (n.map fun n : ℕ => (n : ℚ)) = value.map fun n : ℤ => (n : ℚ) := by
    cases n with
    | none => cases value <;> simp
    | some m =>
      cases value with
      | none => simp
      | some z =>
        simp only [Option.map_some, Option.some.injEq]
        exact_mod_cast Iff.rfl
  have ha := h.sizes.minEmployees
  have hb := h.sizes.maxEmployees
  have hc := h.sizes.minRevenue
  have hd := h.sizes.maxRevenue
  simp only [profileToForm] at ha hb hc hd
  rw [hbound _ rfl] at ha hb hc hd
  unfold Exact bounds
  rw [sizeFilterOf_getD, hbound _ rfl, hbound _ rfl, hbound _ rfl, hbound _ rfl]
  generalize p.sizeFilter.getD {} = s at ha hb hc hd
  obtain ⟨w, x, y, z⟩ := s
  rw [SizeFilter.mk.injEq, hint, hint, hexact ha, hexact hb, hexact hc, hexact hd]
  simp only [List.reduceOption_mem_iff, List.mem_cons, List.not_mem_nil, or_false, or_imp,
    forall_and, Option.mem_def, eq_comm]

theorem filled_resaved_iff (h : Resaved J p p' a b c d) : p'.filled = p.filled ↔ Exact J p := by
  rw [← sizeFilter_resaved_iff h]
  have hgeo : p'.geoFilter.getD {} = p.geoFilter.getD {} := by
    rw [h.row]
    exact geoFilter_getD J p
  have hnegative : p'.negativeFilters.getD {} = p.negativeFilters.getD {} := by
    rw [h.row]
    exact negativeFilters_getD J p
  unfold ICPProfile.filled
  rw [ICPProfile.mk.injEq, hgeo, hnegative, h.row]
  simp [getD_listOrNull]

/-- It has a filter that is an empty object, and an empty list. -/
def shopProfile : ICPProfile :=
  { id := 1, name := "Shops", industryFilter := some ["Retail"]
    sizeFilter := some { minEmployees := some 10, maxEmployees := some 50 }
    geoFilter := some {}, techFilter := some [], negativeFilters := none, isActive := true }

def savedShop : ICPProfile := { shopProfile with geoFilter := none, techFilter := none }

end Frontend
end LeadPulse
