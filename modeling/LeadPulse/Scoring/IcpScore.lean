import LeadPulse.Scoring.Dimensions

/-!
# What the ICP score says

`calculate_icp_score` against what a profile asks for. `Configured` says which of the four criteria
a profile has, `Matches` when a company meets one of them, and `Widens` when one profile asks for
less than another with the same criteria.

`icpScore_laws`: a score is between 0 and 100, it is 100 for the companies that meet everything
the profile asks for, and a wider profile never gives a company less.
-/

namespace LeadPulse
namespace Scoring

open Domain PyStr

inductive Criterion where
  | industry
  | size
  | geography
  | technology
deriving DecidableEq, Repr

/-! ## The filters of a profile -/

section Filters

variable (p : ICPProfile)

/-- The entries of a filter; an empty filter is as good as none. -/
def industries : List String := p.industryFilter.getD []

def minEmployees : Option ℤ := p.sizeFilter.bind (·.minEmployees)

def maxEmployees : Option ℤ := p.sizeFilter.bind (·.maxEmployees)

/-- The countries, the regions and the cities. -/
def locations : List String :=
  let geo := p.geoFilter.getD {}
  geo.countries ++ geo.regions ++ geo.cities

def technologies : List String := p.techFilter.getD []

/-- The profile has this criterion. -/
def Configured : Criterion → Prop
  | .industry => industries p ≠ []
  | .size => minEmployees p ≠ none ∨ maxEmployees p ≠ none
  | .geography => locations p ≠ []
  | .technology => technologies p ≠ []

instance (c : Criterion) : Decidable (Configured p c) := by
  cases c <;> unfold Configured <;> infer_instance

end Filters

/-- The company meets what the profile asks for. An industry may be written longer or shorter than
in the filter, a location only longer, and a technology is the same up to case. -/
def Matches (U : Unicode) (p : ICPProfile) (x : ScoreInput) : Criterion → Prop
  | .industry => ∃ s ∈ x.industry, s ≠ [] ∧
      ∃ ind ∈ industries p, lowered U ind <:+: U.lower s ∨ U.lower s <:+: lowered U ind
  | .size => ∃ e ∈ x.employees, (∀ lo ∈ minEmployees p, lo ≤ e) ∧ ∀ hi ∈ maxEmployees p, e ≤ hi
  | .geography => ∃ s ∈ x.location, s ≠ [] ∧ ∃ loc ∈ locations p, lowered U loc <:+: U.lower s
  | .technology => ∃ tf ∈ technologies p, ∃ t ∈ x.techs, U.lower t = lowered U tf

/-- Entries are added to a filter that has some. -/
structure FilterWidens (filter filter' : List String) : Prop where
  subset : filter ⊆ filter'
  configured : filter = [] → filter' = []

/-- The second profile asks for less: there are more entries in its filters, and its bounds on the
size are looser or gone, but it has the same criteria. -/
structure Widens (p p' : ICPProfile) : Prop where
  industries : FilterWidens (industries p) (industries p')
  minEmployees : ∀ lo' ∈ minEmployees p', ∃ lo ∈ minEmployees p, lo' ≤ lo
  maxEmployees : ∀ hi' ∈ maxEmployees p', ∃ hi ∈ maxEmployees p, hi ≤ hi'
  size : Configured p .size → Configured p' .size
  locations : FilterWidens (locations p) (locations p')
  technologies : FilterWidens (technologies p) (technologies p')

/-! ## The criteria of the code -/

section

variable {U : Unicode} {p p' : ICPProfile} {x : ScoreInput} {c : Criterion}

/-- What `calculate_icp_score` makes of a criterion. -/
def criterion (U : Unicode) (p : ICPProfile) (x : ScoreInput) : Criterion → Option Bool
  | .industry => industryCriterion U p x
  | .size => sizeCriterion p x
  | .geography => geoCriterion U p x
  | .technology => techCriterion U p x

theorem criterion_eq_none : criterion U p x c = none ↔ ¬Configured p c := by
  cases c with
  | industry =>
    show industryCriterion U p x = none ↔ ¬industries p ≠ []
    unfold industryCriterion industries
    split
    · simp [*]
    · rename_i hne
      simp [show p.industryFilter.getD [] ≠ [] from hne]
  | size =>
    show sizeCriterion p x = none ↔ ¬(minEmployees p ≠ none ∨ maxEmployees p ≠ none)
    unfold sizeCriterion minEmployees maxEmployees
    cases p.sizeFilter with
    | none => simp
    | some size => simp
  | geography =>
    show geoCriterion U p x = none ↔ ¬locations p ≠ []
    unfold geoCriterion locations
    cases p.geoFilter with
    | none => simp
    | some geo =>
      rw [Option.bind_some, Option.getD_some]
      split <;> simp_all
  | technology =>
    show techCriterion U p x = none ↔ ¬technologies p ≠ []
    unfold techCriterion technologies
    split
    · simp [*]
    · rename_i hne
      simp [show p.techFilter.getD [] ≠ [] from hne]

/-- An optional text that is there and not empty. -/
theorem orEmpty_ne_nil_and {s : Option (List Char)} {P : List Char → Prop} :
    orEmpty s ≠ [] ∧ P (orEmpty s) ↔ ∃ t ∈ s, t ≠ [] ∧ P t := by
  cases s with
  | none => simp [orEmpty]
  | some t => simp [orEmpty]

theorem industryCriterion_eq_true :
    industryCriterion U p x = some true ↔ Matches U p x .industry := by
  unfold industryCriterion Matches industries
  rw [← orEmpty_ne_nil_and (P := fun s => ∃ ind ∈ p.industryFilter.getD [],
    lowered U ind <:+: U.lower s ∨ U.lower s <:+: lowered U ind)]
  split
  · rename_i hnil
    simp [hnil]
  · simp

theorem sizeCriterion_eq_true : sizeCriterion p x = some true ↔
    Configured p .size ∧ Matches U p x .size := by
  show _ ↔ (minEmployees p ≠ none ∨ maxEmployees p ≠ none) ∧ Matches U p x .size
  unfold sizeCriterion Matches minEmployees maxEmployees
  cases p.sizeFilter with
  | none => simp
  | some size =>
    cases x.employees with
    | none => simp
    | some e => simp [Option.all_eq_true, ← not_and_or]

theorem geoCriterion_eq_true :
    geoCriterion U p x = some true ↔ Matches U p x .geography := by
  unfold geoCriterion Matches
  rw [← orEmpty_ne_nil_and (P := fun s => ∃ loc ∈ locations p, lowered U loc <:+: U.lower s)]
  unfold locations
  cases p.geoFilter with
  | none => simp
  | some geo =>
    rw [Option.bind_some, Option.getD_some]
    dsimp only
    split
    · rename_i hnil
      simp [hnil]
    · rw [Option.some.injEq, Bool.and_eq_true, List.any_eq_true]
      simp only [decide_eq_true_eq]

theorem techCriterion_eq_true :
    techCriterion U p x = some true ↔ Matches U p x .technology := by
  unfold techCriterion Matches technologies
  split
  · rename_i hnil
    simp [hnil]
  · simp [lowered]

/-- A criterion of the profile is met in the code if it is. -/
theorem criterion_eq_true :
    criterion U p x c = some true ↔ Configured p c ∧ Matches U p x c := by
  have hconfigured : criterion U p x c = some true → Configured p c := by
    intro h
    by_contra hnot
    rw [criterion_eq_none.mpr hnot] at h
    cases h
  have hmatches : Configured p c → (criterion U p x c = some true ↔ Matches U p x c) := by
    intro hc
    cases c with
    | industry => exact industryCriterion_eq_true
    | size => exact sizeCriterion_eq_true.trans (and_iff_right hc)
    | geography => exact geoCriterion_eq_true
    | technology => exact techCriterion_eq_true
  constructor
  · intro h
    exact ⟨hconfigured h, (hmatches (hconfigured h)).mp h⟩
  · rintro ⟨hc, hm⟩
    exact (hmatches hc).mpr hm

/-! ## Counting criteria -/

def Criterion.all : List Criterion := [.industry, .size, .geography, .technology]

theorem Criterion.mem_all : c ∈ Criterion.all := by
  cases c <;> decide

theorem criteria_eq_filterMap : criteria U p x = Criterion.all.filterMap (criterion U p x) := rfl

/-- Results of a list of questions against others that are asked as well and answered at least as
often with yes. -/
theorem filterMap_count_le {α : Type} {f g : α → Option Bool} (as : List α)
    (hnone : ∀ a, f a = none ↔ g a = none) (htrue : ∀ a, f a = some true → g a = some true) :
    (as.filterMap f).length = (as.filterMap g).length ∧
      (as.filterMap f).count true ≤ (as.filterMap g).count true := by
  induction as with
  | nil => exact ⟨rfl, le_rfl⟩
  | cons a as ih =>
    obtain ⟨hlength, hcount⟩ := ih
    rcases hf : f a with _ | b
    · rw [List.filterMap_cons_none hf, List.filterMap_cons_none ((hnone a).mp hf)]
      exact ⟨hlength, hcount⟩
    · rcases hg : g a with _ | b'
      · rw [(hnone a).mpr hg] at hf
        cases hf
      · rw [List.filterMap_cons_some hf, List.filterMap_cons_some hg]
        refine ⟨congrArg (· + 1) hlength, ?_⟩
        have hb : b = true → b' = true := by
          rintro rfl
          simpa [hg] using htrue a hf
        cases b with
        | true =>
          rw [hb rfl, List.count_cons_self, List.count_cons_self]
          omega
        | false =>
          rw [List.count_cons_of_ne (by decide)]
          have hle : (as.filterMap g).count true ≤ (b' :: as.filterMap g).count true :=
            List.count_le_count_cons
          omega

/-- The more of the criteria are met, the higher is the score. -/
theorem scoreOf_mono : ∀ total ≤ 4, ∀ k' ≤ total, ∀ k ≤ k', scoreOf k total ≤ scoreOf k' total := by
  decide +kernel

theorem scoreOf_eq_hundred_iff :
    ∀ total ≤ 4, ∀ k ≤ total, total ≠ 0 → (scoreOf k total = 100 ↔ k = total) := by
  decide +kernel

theorem calculateIcpScore_inRange : InRange (calculateIcpScore U p x) :=
  scoreOf_inRange _ length_criteria_le _ count_criteria_le

/-- A criterion that the profile configures has its result among those that are counted. -/
theorem exists_mem_criteria (hc : Configured p c) :
    ∃ b ∈ criteria U p x, criterion U p x c = some b := by
  obtain ⟨b, hb⟩ := Option.ne_none_iff_exists'.mp fun h => criterion_eq_none.mp h hc
  have hmem : b ∈ criteria U p x := by
    rw [criteria_eq_filterMap, List.mem_filterMap]
    exact ⟨c, Criterion.mem_all, hb⟩
  exact ⟨b, hmem, hb⟩

/-- A score is 100 if there are criteria and all of them are met. -/
theorem calculateIcpScore_eq_hundred_iff (hsome : ∃ c, Configured p c) :
    calculateIcpScore U p x = 100 ↔ ∀ c, Configured p c → Matches U p x c := by
  have hne : (criteria U p x).length ≠ 0 := by
    obtain ⟨c, hc⟩ := hsome
    obtain ⟨b, hmem, -⟩ := exists_mem_criteria hc
    exact Nat.ne_of_gt (List.length_pos_of_mem hmem)
  unfold calculateIcpScore
  rw [scoreOf_eq_hundred_iff _ length_criteria_le _ count_criteria_le hne, List.count_eq_length]
  constructor
  · intro h c hc
    obtain ⟨b, hmem, hb⟩ := exists_mem_criteria hc
    rw [← h b hmem] at hb
    exact (criterion_eq_true.mp hb).2
  · intro h b hmem
    rw [criteria_eq_filterMap, List.mem_filterMap] at hmem
    obtain ⟨c, -, hb⟩ := hmem
    have hc : Configured p c := by
      by_contra hnot
      rw [criterion_eq_none.mpr hnot] at hb
      cases hb
    have htrue := criterion_eq_true.mpr ⟨hc, h c hc⟩
    rw [hb] at htrue
    exact (Option.some.inj htrue).symm

/-! ## Wider profiles -/

theorem FilterWidens.configured_iff {filter filter' : List String}
    (h : FilterWidens filter filter') : filter ≠ [] ↔ filter' ≠ [] := by
  constructor
  · intro hne hnil
    rw [hnil] at h
    exact hne (List.subset_nil.mp h.subset)
  · intro hne hnil
    exact hne (h.configured hnil)

theorem Widens.configured_iff (h : Widens p p') : Configured p c ↔ Configured p' c := by
  cases c with
  | industry => exact h.industries.configured_iff
  | size =>
    refine ⟨h.size, fun hsize => ?_⟩
    rcases hsize with hlo | hhi
    · obtain ⟨lo', hlo'⟩ := Option.ne_none_iff_exists'.mp hlo
      obtain ⟨lo, hmem, -⟩ := h.minEmployees lo' hlo'
      exact Or.inl fun hnone => by simp [hnone] at hmem
    · obtain ⟨hi', hhi'⟩ := Option.ne_none_iff_exists'.mp hhi
      obtain ⟨hi, hmem, -⟩ := h.maxEmployees hi' hhi'
      exact Or.inr fun hnone => by simp [hnone] at hmem
  | geography => exact h.locations.configured_iff
  | technology => exact h.technologies.configured_iff

theorem Widens.matches (h : Widens p p') (hm : Matches U p x c) : Matches U p' x c := by
  cases c with
  | industry =>
    obtain ⟨s, hs, hne, ind, hind, hmatch⟩ := hm
    exact ⟨s, hs, hne, ind, h.industries.subset hind, hmatch⟩
  | size =>
    obtain ⟨e, he, hlower, hupper⟩ := hm
    refine ⟨e, he, fun lo' hlo' => ?_, fun hi' hhi' => ?_⟩
    · obtain ⟨lo, hlo, hle⟩ := h.minEmployees lo' hlo'
      exact hle.trans (hlower lo hlo)
    · obtain ⟨hi, hhi, hle⟩ := h.maxEmployees hi' hhi'
      exact (hupper hi hhi).trans hle
  | geography =>
    obtain ⟨s, hs, hne, loc, hloc, hmatch⟩ := hm
    exact ⟨s, hs, hne, loc, h.locations.subset hloc, hmatch⟩
  | technology =>
    obtain ⟨tf, htf, t, ht, heq⟩ := hm
    exact ⟨tf, h.technologies.subset htf, t, ht, heq⟩

theorem Widens.calculateIcpScore_le (h : Widens p p') :
    calculateIcpScore U p x ≤ calculateIcpScore U p' x := by
  have hnone : ∀ c, criterion U p x c = none ↔ criterion U p' x c = none := by
    intro c
    rw [criterion_eq_none, criterion_eq_none, h.configured_iff]
  have htrue : ∀ c, criterion U p x c = some true → criterion U p' x c = some true := by
    intro c
    rw [criterion_eq_true, criterion_eq_true]
    rintro ⟨hc, hm⟩
    exact ⟨h.configured_iff.mp hc, h.matches hm⟩
  obtain ⟨hlength, hcount⟩ := filterMap_count_le Criterion.all hnone htrue
  rw [← criteria_eq_filterMap, ← criteria_eq_filterMap] at hlength hcount
  unfold calculateIcpScore
  rw [hlength]
  exact scoreOf_mono _ length_criteria_le _ count_criteria_le _ hcount

end

/-- Every score is between 0 and 100; it is 100 exactly for the companies that meet all the
criteria of the profile, if it has any; and with a wider profile no company scores less. -/
theorem icpScore_laws (U : Unicode) (p : ICPProfile) (x : ScoreInput) :
    InRange (calculateIcpScore U p x) ∧
      ((∃ c, Configured p c) →
        (calculateIcpScore U p x = 100 ↔ ∀ c, Configured p c → Matches U p x c)) ∧
      ∀ p', Widens p p' → calculateIcpScore U p x ≤ calculateIcpScore U p' x :=
  ⟨calculateIcpScore_inRange, calculateIcpScore_eq_hundred_iff, fun _ h => h.calculateIcpScore_le⟩

/-- A profile with an industry and a size. -/
def saasProfile : ICPProfile where
  id := 1
  name := "SaaS"
  industryFilter := some ["SaaS"]
  sizeFilter := some { minEmployees := some 10, maxEmployees := some 200 }
  geoFilter := none
  techFilter := none
  negativeFilters := none
  isActive := true

/-- The same without an upper bound, and for one industry more. -/
def widerProfile : ICPProfile :=
  { saasProfile with
    industryFilter := some ["Retail", "SaaS"]
    sizeFilter := some { minEmployees := some 10 } }

/-- A company too large for the first profile. -/
def saasCompany : ScoreInput where
  industry := some "SaaS platform".toList
  employees := some 250

theorem widens_saasProfile : Widens saasProfile widerProfile where
  industries := ⟨by decide, by decide⟩
  minEmployees := by decide
  maxEmployees := by decide
  size := by decide
  locations := ⟨by decide, by decide⟩
  technologies := ⟨by decide, by decide⟩

theorem icpScore_laws_saas :
    calculateIcpScore .ascii saasProfile saasCompany = 50 ∧
      calculateIcpScore .ascii widerProfile saasCompany = 100 ∧
      calculateIcpScore .ascii saasProfile saasCompany ≤
        calculateIcpScore .ascii widerProfile saasCompany ∧
      ∀ c, Configured widerProfile c → Matches .ascii widerProfile saasCompany c := by
  have hscore : calculateIcpScore .ascii widerProfile saasCompany = 100 := by decide +kernel
  refine ⟨by decide +kernel, hscore, ?_, ?_⟩
  · exact (icpScore_laws .ascii saasProfile saasCompany).2.2 widerProfile widens_saasProfile
  · exact ((icpScore_laws .ascii widerProfile saasCompany).2.1 ⟨.size, by decide⟩).mp hscore

end Scoring
end LeadPulse
