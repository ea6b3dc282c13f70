import LeadPulse.Dedup.Scan
import LeadPulse.Icp.Profile

/-!
# Lead scores

`calculate_icp_score` (`services/discovery.py`) and `LeadScoringService.score_company`
(`services/lead_scoring.py`). A company is compared with up to four criteria of the active ICP
profile; the ICP score is the share of those it meets. `score_company` computes it from the
columns of the company and writes it back together with the lead score, and turns `monitor` on or
off by it unless the user has pinned that.

Scores are computed exactly and rounded as Python rounds. The other three dimensions of the lead
score come from other tables and are arguments.
-/

namespace LeadPulse
namespace Scoring

open Domain PyStr

/-- `round(x, 2)`. -/
def roundHundredth (x : ℚ) : ℚ := Dedup.roundTenth (10 * x) / 10

/-- The lower-cased text of a filter. -/
def lowered (U : Unicode) (s : String) : List Char := U.lower s.toList

/-! ## `calculate_icp_score` -/

/-- What is compared with the profile. -/
structure ScoreInput where
  industry : Option (List Char) := none
  employees : Option ℤ := none
  location : Option (List Char) := none
  techs : List (List Char) := []
deriving DecidableEq, Repr

section Criteria

variable (U : Unicode) (p : ICPProfile) (x : ScoreInput)

/-- A null is as false as an empty text. -/
def orEmpty (s : Option (List Char)) : List Char := s.getD []

/-- The industry criterion: `none` if the profile has none, and whether it is met. -/
def industryCriterion : Option Bool :=
  match p.industryFilter.getD [] with
  | [] => none
  | industries =>
    let industryLower := U.lower (orEmpty x.industry)
    some (orEmpty x.industry ≠ [] && industries.any fun ind =>
      lowered U ind <:+: industryLower ∨ industryLower <:+: lowered U ind)

/-- The size criterion; the revenue bounds are not looked at. -/
def sizeCriterion : Option Bool :=
  p.sizeFilter.bind fun size =>
    if size.minEmployees = none ∧ size.maxEmployees = none then none
    else some (x.employees.any fun employees =>
      size.minEmployees.all (· ≤ employees) && size.maxEmployees.all (employees ≤ ·))

/-- The geography criterion. -/
def geoCriterion : Option Bool :=
  p.geoFilter.bind fun geo =>
    match geo.countries ++ geo.regions ++ geo.cities with
    | [] => none
    | all => some (orEmpty x.location ≠ [] && all.any fun loc =>
        lowered U loc <:+: U.lower (orEmpty x.location))

/-- The technology criterion. -/
def techCriterion : Option Bool :=
  match p.techFilter.getD [] with
  | [] => none
  | techs => some (techs.any fun tf => (x.techs.map U.lower).contains (lowered U tf))

/-- Whether each criterion of the profile is met. -/
def criteria : List Bool :=
  [industryCriterion U p x, sizeCriterion p x, geoCriterion U p x, techCriterion U p x].reduceOption

/-- The share of the criteria that are met. -/
def scoreOf (matching total : ℕ) : ℚ :=
  if total = 0 then 50 else Dedup.roundTenth (matching / total * 100)

/-- `calculate_icp_score`. -/
def calculateIcpScore : ℚ := scoreOf ((criteria U p x).count true) (criteria U p x).length

end Criteria

/-! ## `score_company` -/

structure ScoreBreakdown where
  icpFit : ℚ
  signalStrength : ℚ
  contactQuality : ℚ
  recency : ℚ
deriving DecidableEq, Repr

/-- The columns of a company that scoring reads or writes. -/
structure ScoredCompany where
  status : CompanyStatus := .discovered
  industry : Option (List Char) := none
  employeeCount : Option ℤ := none
  location : Option (List Char) := none
  /-- `company_info["technologies"]`. -/
  technologies : List (List Char) := []
  /-- `bedrijfsdata["apps"]`. -/
  apps : List Char := []
  icpScore : Option ℚ := none
  leadScore : Option ℚ := none
  scoreBreakdown : Option ScoreBreakdown := none
  scoreUpdatedAt : Option Time := none
  monitor : Bool := false
  monitorPinned : Bool := false
deriving DecidableEq, Repr

/-- `[a.strip() for a in apps.split(",") if a.strip()]`. -/
def splitApps (apps : List Char) : List (List Char) :=
  ((apps.splitOn ',').map strip).filter (· ≠ [])

/-- The technologies of a company. -/
def ScoredCompany.techs (c : ScoredCompany) : List (List Char) :=
  if c.technologies = [] then splitApps c.apps else c.technologies

/-- What the columns of a company give for the comparison. -/
def ScoredCompany.input (c : ScoredCompany) : ScoreInput where
  industry := c.industry
  employees := c.employeeCount
  location := c.location
  techs := c.techs

/-- A company of this industry is disqualified by the profile. -/
def disqualified (U : Unicode) (p : ICPProfile) (industry : Option (List Char)) : Bool :=
  orEmpty industry ≠ [] && ((p.negativeFilters.map (·.excludedIndustries)).getD []).any fun ex =>
    lowered U ex <:+: U.lower (orEmpty industry)

/-- `_calc_icp_fit`, with the active profile. -/
def calcIcpFit (U : Unicode) (profile : Option ICPProfile) (c : ScoredCompany) : ℚ :=
  match profile with
  | none => 50
  | some p => if disqualified U p c.industry then 0 else calculateIcpScore U p c.input

/-- The dimensions that are calculated from signals and contacts. -/
structure Dimensions where
  signalStrength : ℚ
  contactQuality : ℚ
  recency : ℚ
deriving DecidableEq, Repr

/-- `WEIGHT_ICP_FIT * icp_fit + …`. -/
def weightedSum (icpFit : ℚ) (d : Dimensions) : ℚ :=
  30 / 100 * icpFit + 35 / 100 * d.signalStrength + 20 / 100 * d.contactQuality +
    15 / 100 * d.recency

/-- The weighted sum, between 0 and 100. -/
def leadScore (icpFit : ℚ) (d : Dimensions) : ℚ :=
  roundHundredth (min 100 (max 0 (weightedSum icpFit d)))

/-- The ICP score from which on a company is monitored. -/
def monitorThreshold : ℚ := 85

/-- The company as `score_company` leaves it in its session. -/
def scoreCompany (U : Unicode) (profile : Option ICPProfile) (d : Dimensions) (now : Time)
    (c : ScoredCompany) : ScoredCompany :=
  let icpFit := calcIcpFit U profile c
  let icpScore := roundHundredth icpFit
  { c with
    icpScore := some icpScore
    leadScore := some (leadScore icpFit d)
    scoreBreakdown := some
      { icpFit := icpScore
        signalStrength := roundHundredth d.signalStrength
        contactQuality := roundHundredth d.contactQuality
        recency := roundHundredth d.recency }
    scoreUpdatedAt := some now
    monitor := if c.monitorPinned then c.monitor else monitorThreshold ≤ icpScore }

/-! ## Which criteria make a score -/

section

variable {U : Unicode} {p : ICPProfile} {x : ScoreInput}

theorem length_criteria_le : (criteria U p x).length ≤ 4 := List.reduceOption_length_le _

theorem count_criteria_le : (criteria U p x).count true ≤ (criteria U p x).length :=
  List.count_le_length

/-- Rounding does not mix up the shares of up to four criteria. -/
theorem scoreOf_injective : ∀ total ≤ 4, ∀ k ≤ total, ∀ k' ≤ total,
    scoreOf k total = scoreOf k' total → total = 0 ∨ k = k' := by
  decide +kernel

/-- The second rounding of a score changes nothing. -/
theorem roundHundredth_scoreOf : ∀ total ≤ 4, ∀ k ≤ total,
    roundHundredth (scoreOf k total) = scoreOf k total := by
  decide +kernel

theorem roundHundredth_calculateIcpScore :
    roundHundredth (calculateIcpScore U p x) = calculateIcpScore U p x :=
  roundHundredth_scoreOf _ length_criteria_le _ count_criteria_le

/-- A score is 0 if there are criteria and none of them is met. -/
theorem calculateIcpScore_eq_zero_iff :
    calculateIcpScore U p x = 0 ↔ criteria U p x ≠ [] ∧ true ∉ criteria U p x := by
  have hzero : ∀ total ≤ 4, ∀ k ≤ total, scoreOf k total = 0 ↔ total ≠ 0 ∧ k = 0 := by
    decide +kernel
  unfold calculateIcpScore
  rw [hzero _ length_criteria_le _ count_criteria_le, List.count_eq_zero, Ne,
    List.length_eq_zero_iff]

/-- The criteria, with the technologies at the end. -/
theorem criteria_eq (y : ScoreInput) : criteria U p y =
    [industryCriterion U p y, sizeCriterion p y, geoCriterion U p y].reduceOption ++
      (techCriterion U p y).toList := by
  unfold criteria
  rw [← List.reduceOption_singleton, ← List.reduceOption_append]
  rfl

/-- Whether there is a technology criterion depends on the profile. -/
theorem techCriterion_isSome (y : ScoreInput) :
    (techCriterion U p y).isSome = (techCriterion U p x).isSome := by
  unfold techCriterion
  split <;> rfl

/-- The score depends on the technologies through their criterion only. -/
theorem calculateIcpScore_techs_iff (techs : List (List Char)) :
    calculateIcpScore U p x = calculateIcpScore U p { x with techs := techs } ↔
      techCriterion U p x = techCriterion U p { x with techs := techs } := by
  have hsome := techCriterion_isSome (U := U) (p := p) (x := x) { x with techs := techs }
  have hx := criteria_eq (U := U) (p := p) x
  have hx' : criteria U p { x with techs := techs } =
      [industryCriterion U p x, sizeCriterion p x, geoCriterion U p x].reduceOption ++
        (techCriterion U p { x with techs := techs }).toList := criteria_eq _
  have hfour := length_criteria_le (U := U) (p := p) (x := x)
  have hle := count_criteria_le (U := U) (p := p) (x := x)
  have hle' := count_criteria_le (U := U) (p := p) (x := { x with techs := techs })
  unfold calculateIcpScore
  rw [hx] at hfour hle ⊢
  rw [hx'] at hle' ⊢
  generalize techCriterion U p { x with techs := techs } = t' at *
  generalize techCriterion U p x = t at *
  constructor
  · intro h
    cases t with
    | none =>
      cases t' with
      | none => rfl
      | some b' => cases hsome
    | some b =>
      cases t' with
      | none => cases hsome
      | some b' =>
        simp only [Option.toList_some, List.length_append, List.length_singleton,
          List.count_append] at h hfour hle hle'
        -- there is a criterion, so equal scores have equal counts
        rcases scoreOf_injective _ hfour _ hle _ hle' h with hzero | hcount
        · omega
        · have hlast : [b].count true = [b'].count true := Nat.add_left_cancel hcount
          revert hlast
          cases b <;> cases b' <;> simp
  · rintro rfl
    rfl

end

end Scoring
end LeadPulse
